import Mathlib.Algebra.BigOperators.Ring.Finset
import TfmExtras.Etss.DeleteStep
import TfmExtras.Etss.Update

/-! Deleting a file: the functions of `etss_flash_fs.c` make the step of the filesystem. -/

namespace Etss
open NorFlash NorFlash.Flash FlashM

variable {cfg : Config} {s a d : Nat} {strict : Prop} {P : Image → Prop} {c : Ctx} {fl fl₀ : Flash}

/-- The file entries from `lo` on and before `hi`, but not entry `d`. -/
def otherFiles (cfg : Config) (s d lo hi : Nat) : Region := fun b o =>
  fileRange cfg s lo hi b o ∧ ¬ fileRange cfg s d (d + 1) b o

theorem otherFiles_mono {lo hi lo' hi' : Nat} (h₁ : lo' ≤ lo) (h₂ : hi ≤ hi') (b o : Nat)
    (h : otherFiles cfg s d lo hi b o) : otherFiles cfg s d lo' hi' b o :=
  ⟨fileRange_mono h₁ h₂ b o h.1, h.2⟩

theorem fileRange_otherFiles {i lo hi : Nat} (hi' : lo ≤ i ∧ i < hi) (hne : i ≠ d) (b o : Nat)
    (h : fileRange cfg s i (i + 1) b o) : otherFiles cfg s d lo hi b o :=
  ⟨fileRange_mono hi'.1 (Nat.succ_le_of_lt hi'.2) b o h, fileRange_apart (by omega) b o h⟩

theorem shifted_inRange {st : Image} {fileMeta : FileMeta} (h : fileMeta.InRange) :
    (st.shifted d fileMeta).InRange := by
  rw [Image.shifted_eq]
  split_ifs
  · exact ⟨h.lblock, sub32_lt _ _, h.curSize, h.maxSize, h.flags⟩
  · exact h

/-- The loop writes the entry of every remaining file, and collects the scan. -/
theorem deleteIdxLoop_ok (n : Nat) : ∀ {fl : Flash} {idx : Nat} {scan : DeleteScan},
    Ready cfg fl₀ a s c fl → idx + n = cfg.maxNumFiles →
    (strict → Clean (otherFiles cfg s d idx (idx + n)) fl) →
    (deleteIdxLoop cfg d ((image cfg fl₀ a).files d).lblock ((image cfg fl₀ a).files d).dataIdx
        ((image cfg fl₀ a).files d).maxSize n idx scan).Ok cfg.eraseVal
      (StageOp cfg s (image cfg fl₀ a).header.scratchDblock strict) c fl fun scan' c' fl' =>
        scan' = scanDelete ((image cfg fl₀ a).files d) (image cfg fl₀ a).files d n idx scan ∧
        c' = c ∧ OnlyIn (otherFiles cfg s d idx (idx + n)) fl fl' ∧
        ∀ i, idx ≤ i → i < idx + n → i ≠ d → (image cfg fl' s).files i =
          (image cfg fl₀ a).shifted d ((image cfg fl₀ a).files i) := by
  induction n with
  | zero =>
    intro fl idx scan h _ _
    exact ok_pure ⟨rfl, rfl, .refl _ _, fun i h₁ h₂ => by omega⟩
  | succ n ih =>
    intro fl idx scan h hn hc
    have hlt : idx < cfg.maxNumFiles := by omega
    have hend : idx + 1 + n = idx + (n + 1) := by omega
    unfold deleteIdxLoop scanDelete
    by_cases hd : idx = d
    · rw [if_pos hd, if_pos hd]
      refine (ih h (by omega) fun hs => (hc hs).mono (otherFiles_mono (by omega) hend.le)).mono ?_
      rintro _ _ fl' ⟨rfl, rfl, hf, hfiles⟩
      exact ⟨rfl, rfl, hf.mono (otherFiles_mono (by omega) hend.le),
        fun i h₁ h₂ hne => hfiles i (by omega) (by omega) hne⟩
    · rw [if_neg hd, if_neg hd]
      refine (h.readFile allowsReads_stageOp hlt).seq_wp ?_
      have hin := image_files_inRange cfg fl₀ a idx
      have hent : (deleteIdxEntry ((image cfg fl₀ a).files d).lblock
          ((image cfg fl₀ a).files d).dataIdx ((image cfg fl₀ a).files d).maxSize scan
          ((image cfg fl₀ a).files idx)).2 =
          (image cfg fl₀ a).shifted d ((image cfg fl₀ a).files idx) := deleteIdxEntry_snd ..
      dsimp only
      rw [hent]
      have hsub : ∀ b o, fileRange cfg s idx (idx + 1) b o →
          otherFiles cfg s d idx (idx + (n + 1)) b o := fileRange_otherFiles (by omega) hd
      refine Ok.bind (h.writeFile_ok hlt (shifted_inRange hin) fun hs => (hc hs).mono hsub) ?_
      rintro _ c fl₁ ⟨rfl, hf₁, hfile₁⟩
      refine (ih (h.next_fileRange hf₁) (by omega) fun hs => hf₁.clean
        ((hc hs).mono (otherFiles_mono (by omega) hend.le)) fun b o hw =>
          fileRange_apart (.inr le_rfl) b o hw.1).mono ?_
      rintro _ _ fl' ⟨rfl, rfl, hf, hfiles⟩
      refine ⟨rfl, rfl, (hf₁.mono hsub).trans (hf.mono (otherFiles_mono (by omega) hend.le)),
        fun i h₁ h₂ hne => ?_⟩
      by_cases hi : i = idx
      · subst hi
        rw [files_eq_of_fileRange (hf.mono fun _ _ hw => hw.1) (.inl (Nat.lt_succ_self i)), hfile₁]
      · exact hfiles i (by omega) (by omega) hne

theorem Image.Wf.scan_aligned {st : Image} (h : st.Wf cfg a) (ha : cfg.Aligned) :
    cfg.programUnit ∣ (st.deleteScan cfg d).nbrBytesToMove := by
  have hs : ScanOf cfg st (st.behind cfg d) (st.deleteScan cfg d) := deleteScan_spec
  obtain ⟨k, hk, hpu⟩ := ha.eq_two_pow
  have hdvd : cfg.programUnit ∣ 2 ^ 32 := hpu ▸ Nat.pow_dvd_pow 2 (by omega)
  rw [hs.total, Nat.dvd_mod_iff hdvd]
  refine Finset.dvd_sum fun i hi => ?_
  obtain ⟨hi, _, hv, _⟩ := Image.mem_behind.mp hi
  exact ((h.aligned ha).2 i hi (validateFid_isOk.mp hv)).2

/-! ## The whole deletion -/

@[simp] theorem Ctx.withScratch_version (c : Ctx) (lblock phyId : Nat) :
    (c.withScratch lblock phyId).metaBlockHeader.fsVersion = c.metaBlockHeader.fsVersion := by
  unfold withScratch
  split_ifs <;> rfl

@[simp] theorem Ctx.withScratch_swapCount (c : Ctx) (lblock phyId : Nat) :
    (c.withScratch lblock phyId).metaBlockHeader.activeSwapCount =
      c.metaBlockHeader.activeSwapCount := by
  unfold withScratch
  split_ifs <;> rfl

theorem Ctx.withScratch_dblock (c : Ctx) (lblock phyId : Nat) :
    (c.withScratch lblock phyId).metaBlockHeader.scratchDblock =
      if lblock = 0 then c.metaBlockHeader.scratchDblock else phyId := by
  unfold withScratch
  split_ifs <;> rfl

theorem fileMeta_zero_inRange : FileMeta.zero.InRange := by
  constructor <;> decide

/-- The file table of a deletion is staged. -/
structure TableStaged (cfg : Config) (s : Nat) (st : Image) (d : Nat) (fl : Flash) : Prop where
  zero : (image cfg fl s).files d = FileMeta.zero
  others : ∀ i, i < cfg.maxNumFiles → i ≠ d → (image cfg fl s).files i = st.shifted d (st.files i)

theorem TableStaged.frame {st : Image} {fl' : Flash} {W : Region} (h : TableStaged cfg s st d fl)
    (hd : d < cfg.maxNumFiles) (hf : OnlyIn W fl fl')
    (hW : ∀ b o, fileRange cfg s 0 cfg.maxNumFiles b o → ¬ W b o) : TableStaged cfg s st d fl' := by
  have hfile : ∀ i, i < cfg.maxNumFiles → (image cfg fl' s).files i = (image cfg fl s).files i :=
    fun i hi => image_files_congr hf fun o h₁ h₂ =>
      hW s o (fileRange_mono (Nat.zero_le i) (Nat.succ_le_of_lt hi) s o ⟨rfl, h₁, h₂⟩)
  exact ⟨(hfile d hd).trans h.zero, fun i hi hne => (hfile i hi).trans (h.others i hi hne)⟩

/-- The data of a deletion is staged. -/
structure DataStaged (cfg : Config) (s : Nat) (st : Image) (d : Nat) (fl : Flash) : Prop where
  blocks : ∀ l, l < numActiveDblocks cfg → (image cfg fl s).blocks l =
    stagedBlock s st.blocks (st.files d).lblock ⟨stageBlock s st (st.files d).lblock,
      (st.blocks (st.files d).lblock).dataStart,
      (st.blocks (st.files d).lblock).freeSize + (st.files d).maxSize⟩ l
  kept : ∀ o, (st.blocks (st.files d).lblock).dataStart ≤ o → o < (st.files d).dataIdx →
    fl.byte cfg.eraseVal (stageBlock s st (st.files d).lblock) o = st.data (st.files d).lblock o
  moved : ∀ k < (st.deleteScan cfg d).nbrBytesToMove,
    fl.byte cfg.eraseVal (stageBlock s st (st.files d).lblock) ((st.files d).dataIdx + k) =
      st.data (st.files d).lblock ((st.deleteScan cfg d).srcOffset + k)
  rest : ∀ o, (st.files d).dataIdx + (st.deleteScan cfg d).nbrBytesToMove ≤ o → o < cfg.blockSize →
    fl.byte cfg.eraseVal (stageBlock s st (st.files d).lblock) o = cfg.eraseVal

theorem DataStaged.frame {st : Image} {fl' : Flash} (h : DataStaged cfg s st d fl)
    (hf : OnlyIn (range s cfg.metaEnd cfg.blockSize) fl fl')
    (hne : stageBlock s st (st.files d).lblock ≠ s) : DataStaged cfg s st d fl' := by
  have hbyte : ∀ o, fl'.byte cfg.eraseVal (stageBlock s st (st.files d).lblock) o =
      fl.byte cfg.eraseVal (stageBlock s st (st.files d).lblock) o :=
    fun o => hf.byte fun hw => hne hw.1
  refine ⟨fun l hl => ?_, fun o h₁ h₂ => (hbyte o).trans (h.kept o h₁ h₂),
    fun k hk => (hbyte _).trans (h.moved k hk), fun o h₁ h₂ => (hbyte o).trans (h.rest o h₁ h₂)⟩
  rw [← h.blocks l hl]
  refine image_blocks_congr hf fun o _ h₂ hw => ?_
  have := hw.2.1
  unfold Config.metaEnd Config.fileEntry Config.filesStart at this
  omega

/-- The file table is staged before anything else. -/
theorem Starts.deleteTable_ok (h : Starts cfg fl₀ a s strict c) (hd : d < cfg.maxNumFiles)
    {α : Type} {k : DeleteScan → FsM α} {R : α → Ctx → Flash → Prop}
    (hk : ∀ fl, OnlyIn (fileRange cfg s 0 cfg.maxNumFiles) fl₀ fl →
      TableStaged cfg s (image cfg fl₀ a) d fl →
      (k ((image cfg fl₀ a).deleteScan cfg d)).Ok cfg.eraseVal
        (UpdateOp cfg fl₀ a s strict P) c fl R) :
    (do
      flashFsMblockUpdateScratchFileMeta cfg d FileMeta.zero
      let scan ← deleteIdxLoop cfg d ((image cfg fl₀ a).files d).lblock
        ((image cfg fl₀ a).files d).dataIdx ((image cfg fl₀ a).files d).maxSize cfg.maxNumFiles 0
        ⟨cfg.blockSize, 0⟩
      k scan : FsM α).Ok cfg.eraseVal (UpdateOp cfg fl₀ a s strict P) c fl₀ R := by
  have hr := h.toReady
  have hown : ∀ b o, fileRange cfg s d (d + 1) b o → fileRange cfg s 0 cfg.maxNumFiles b o :=
    fileRange_mono (Nat.zero_le d) (Nat.succ_le_of_lt hd)
  refine Ok.bind (staged_ok hr.only (hr.writeFile_ok hd fileMeta_zero_inRange
    fun hs => (h.files_clean hs).mono hown)) ?_
  rintro _ c fl₁ ⟨rfl, hf₁, hz⟩
  have hr₁ := hr.next_fileRange hf₁
  have hall : 0 + cfg.maxNumFiles = cfg.maxNumFiles := Nat.zero_add _
  refine Ok.bind (staged_ok hr₁.only (deleteIdxLoop_ok cfg.maxNumFiles hr₁ hall fun hs => ?_)) ?_
  · rw [hall]
    exact hf₁.clean ((h.files_clean hs).mono fun _ _ hw => hw.1) fun _ _ hw => hw.2
  rintro _ c fl₂ ⟨rfl, rfl, hf₂, hfiles⟩
  rw [hall] at hf₂ hfiles
  refine hk fl₂ ((hf₁.mono hown).trans (hf₂.mono fun _ _ hw => hw.1)) ⟨?_, fun i hi hne =>
    hfiles i (Nat.zero_le i) hi hne⟩
  rw [← hz]
  exact image_files_congr hf₂ fun o h₁ h₂ hw => hw.2 ⟨rfl, h₁, h₂⟩

/-! ## The stages of a deletion -/

/-- A deletion, up to the flush of a dedicated scratch block: the logical block of the file, and
the block that its data is in now. -/
def deleteIdxStage (cfg : Config) (delFileIdx : Nat) : FsM (Nat × Nat) := do
  let fileMeta ← flashFsMblockReadFileMeta cfg delFileIdx
  (ofExcept (utilsValidateFid fileMeta.id)).failAs .doesNotExist
  flashFsMblockUpdateScratchFileMeta cfg delFileIdx FileMeta.zero
  let scan ← deleteIdxLoop cfg delFileIdx fileMeta.lblock fileMeta.dataIdx fileMeta.maxSize
    cfg.maxNumFiles 0 ⟨cfg.blockSize, 0⟩
  let scratchId ← compactBlockStage cfg fileMeta.lblock fileMeta.maxSize scan.srcOffset
    fileMeta.dataIdx scan.nbrBytesToMove
  pure (fileMeta.lblock, scratchId)

/-- What is left before the commit, when the data is not in logical block 0. -/
def deleteIdxComplete (cfg : Config) (x : Nat × Nat) : FsM Unit := do
  flushScratch x.1 x.2
  if x.1 ≠ logicalDblock0 then
    (flashFsMblockMigrateLb0DataToScratch cfg).failAs .genericError
  else pure ()

theorem deleteIdx_eq (cfg : Config) (d : Nat) : flashFsDeleteIdx cfg d =
    deleteIdxStage cfg d >>= fun x =>
      deleteIdxComplete cfg x >>= fun _ => flashFsMblockMetaUpdateFinalize cfg := by
  unfold flashFsDeleteIdx deleteIdxStage deleteIdxComplete
  simp only [compactBlock_eq, bind_assoc, pure_bind]
  refine bind_congr fun fileMeta => ?_
  split_ifs <;> simp only [pure_bind]

/-- What the first stage of a deletion leaves. -/
structure DeleteStaged (cfg : Config) (fl₀ : Flash) (a s d : Nat) (c : Ctx) (x : Nat × Nat)
    (c' : Ctx) (fl' : Flash) : Prop extends Ready cfg fl₀ a s c' fl' where
  result : x = (((image cfg fl₀ a).files d).lblock,
    stageBlock s (image cfg fl₀ a) ((image cfg fl₀ a).files d).lblock)
  ctx : c' = c.withScratch ((image cfg fl₀ a).files d).lblock
    ((image cfg fl₀ a).blocks ((image cfg fl₀ a).files d).lblock).phyId
  table : TableStaged cfg s (image cfg fl₀ a) d fl'
  data : DataStaged cfg s (image cfg fl₀ a) d fl'
  clean : ((image cfg fl₀ a).files d).lblock ≠ 0 → Clean (range s cfg.metaEnd cfg.blockSize) fl'

theorem stageBlock_ne (h : Ready cfg fl₀ a s c fl) {l : Nat} (hl : l < numActiveDblocks cfg)
    (h0 : l ≠ 0) : stageBlock s (image cfg fl₀ a) l ≠ s := by
  have hsd := h.wf.scratch (numBlocks_ne_two h.accepted h0 hl)
  have := h.s_le
  rw [stageBlock, if_neg h0]
  omega

theorem Starts.deleteIdxStage_ok (h : Starts cfg fl₀ a s strict c) (hd : d < cfg.maxNumFiles)
    (hid : ((image cfg fl₀ a).files d).id ≠ 0) :
    (deleteIdxStage cfg d).Ok cfg.eraseVal (UpdateOp cfg fl₀ a s strict P) c fl₀
      fun x c' fl' => DeleteStaged cfg fl₀ a s d c x c' fl' := by
  have hr := h.toReady
  have hw := h.wf
  have hsc : c.metaBlockHeader.scratchDblock = (image cfg fl₀ a).header.scratchDblock :=
    congrArg MetadataBlockHeader.scratchDblock h.header
  have hv : ((ofExcept (utilsValidateFid ((image cfg fl₀ a).files d).id)).failAs
      .doesNotExist : FsM Unit).Query cfg.eraseVal (UpdateOp cfg fl₀ a s strict P) c fl₀
        (.ok ()) := by
    have he : utilsValidateFid ((image cfg fl₀ a).files d).id = .ok () := if_pos hid
    rw [he]
    exact (query_ofExcept _).failAs
  obtain ⟨hl, _, _⟩ := hw.sizes d hd hid
  obtain ⟨hlo, hhi⟩ := hw.inside hd hid
  have hfree := hw.freeSize_le _ hl
  unfold Image.dataEnd at hhi
  unfold deleteIdxStage
  refine (hr.readFile allowsReads_updateOp hd).seq_wp (hv.seq_wp (h.deleteTable_ok hd ?_))
  intro fl₁ hf₁ ht₁
  have hr₁ := hr.next_fileRange hf₁
  have hal := fun ha => hw.scan_aligned (d := d) ha
  have hbs := cfg.blockSize_lt
  have hscan : ((image cfg fl₀ a).files d).dataIdx +
      ((image cfg fl₀ a).deleteScan cfg d).nbrBytesToMove ≤ cfg.blockSize ∧
      (0 < ((image cfg fl₀ a).deleteScan cfg d).nbrBytesToMove →
        ((image cfg fl₀ a).deleteScan cfg d).srcOffset +
          ((image cfg fl₀ a).deleteScan cfg d).nbrBytesToMove ≤ cfg.blockSize) := by
    rcases hw.scan_cases hd hid with ⟨_, h0⟩ | ⟨h₁, h₂, _⟩
    · omega
    · unfold Image.dataEnd at h₂
      omega
  refine Ok.bind (staged_ok hr₁.only (hr₁.compactBlockStage_ok hsc hl (by omega) hlo hscan.1 hscan.2
    (fun ha => ⟨((hw.aligned ha).2 d hd hid).1, hal ha⟩)
    (fun _ => hf₁.clean (h.data_clean _ hl) fun b o hw hw' => hr.dataRange_apart hl le_rfl b o hw' hw)
    fun _ => hf₁.clean h.blocks_clean (fileRange_apart_blockRange le_rfl))) ?_
  rintro _ _ fl₂ ⟨rfl, rfl, hcomp⟩
  have hfiles : ∀ b o, fileRange cfg s 0 cfg.maxNumFiles b o →
      ¬(dataRange cfg s (image cfg fl₀ a) ((image cfg fl₀ a).files d).lblock b o ∨
        blockRange s 0 (numActiveDblocks cfg) b o) := by
    rintro b o hw (hw' | hw')
    · exact hr.dataRange_apart hl le_rfl b o hw hw'
    · exact fileRange_apart_blockRange le_rfl b o hw' hw
  refine ok_pure ⟨hr₁.next (Ctx.withScratch_active ..) (Ctx.withScratch_scratch ..)
    (hcomp.only.mono fun b o hw => hw.elim (hr.dataRange_stageRegion hl b o)
      (range_stageRegion (by omega) b o)), rfl, rfl, ht₁.frame hd hcomp.only hfiles,
    ⟨hcomp.blocks, hcomp.kept, hcomp.moved, fun o h₁ h₂ => ?_⟩, fun h0 => ?_⟩
  · have hcell : fl₂.cell _ o = _ := (hcomp.rest o h₁ h₂).trans
      ((hf₁ _ o fun hw => hr.dataRange_apart hl le_rfl _ o hw ⟨rfl, by omega, h₂⟩).trans
        (h.data_clean _ hl _ o ⟨rfl, by omega, h₂⟩))
    rw [byte, hcell]
    rfl
  · have hstart := hw.lb0.2
    refine hcomp.only.clean (hf₁.clean ((h.data_clean 0 h.accepted.numActive_pos).mono
      fun b o hw => ⟨hw.1, hstart.trans_le hw.2.1, hw.2.2⟩) fun b o hw hw' => ?_) ?_
    · have := hw.2.1
      have := hw'.2.2
      unfold Config.metaEnd at *
      omega
    · rintro b o ⟨rfl, h₁, _⟩ (hw' | hw')
      · exact stageBlock_ne hr hl h0 hw'.1.symm
      · have := hw'.2.2
        unfold Config.metaEnd Config.fileEntry Config.filesStart at h₁
        omega

/-- Logical block 0 moves along with the metadata. -/
theorem DeleteStaged.complete_ok {x : Nat × Nat} {c₁ : Ctx} {fl₁ : Flash}
    (h : DeleteStaged cfg fl₀ a s d c x c₁ fl₁) (hd : d < cfg.maxNumFiles)
    (hid : ((image cfg fl₀ a).files d).id ≠ 0) :
    (deleteIdxComplete cfg x).Ok cfg.eraseVal (UpdateOp cfg fl₀ a s strict P) c₁ fl₁
      fun _ c' fl' => c' = c₁ ∧ Ready cfg fl₀ a s c₁ fl' ∧
        TableStaged cfg s (image cfg fl₀ a) d fl' ∧ DataStaged cfg s (image cfg fl₀ a) d fl' ∧
        (((image cfg fl₀ a).files d).lblock ≠ 0 → ∀ o, cfg.metaEnd ≤ o →
          o < (image cfg fl₀ a).dataEnd cfg 0 →
            fl'.byte cfg.eraseVal s o = (image cfg fl₀ a).data 0 o) := by
  have hr := h.toReady
  obtain ⟨hl, _, _⟩ := hr.wf.sizes d hd hid
  unfold deleteIdxComplete
  rw [h.result]
  dsimp only
  refine Ok.bind (staged_ok hr.only (hr.flushScratch_ok hl)) ?_
  rintro _ c₁ fl₁ ⟨rfl, rfl⟩
  split_ifs with h0
  · refine Ok.failAs (Ok.mono (staged_ok hr.only (hr.migrateLb0_ok (h.clean h0))) ?_)
    rintro _ _ fl₂ ⟨rfl, hf₂, hb₂⟩
    refine ⟨rfl, hr.next rfl rfl (hf₂.mono (range_stageRegion (metaEnd_ge cfg))),
      h.table.frame hd hf₂ fun b o hw hw' => ?_, h.data.frame hf₂ (stageBlock_ne hr hl h0),
      fun _ => hb₂.1⟩
    have := hw.2.2
    have := hw'.2.1
    unfold Config.metaEnd at *
    omega
  · exact ok_pure ⟨rfl, hr, h.table, h.data, fun hn => absurd hn h0⟩

/-- What is staged, with the header of the context, is the filesystem without the file. -/
theorem Starts.deleteStep (h : Starts cfg fl₀ a s strict c) (hd : d < cfg.maxNumFiles)
    (hid : ((image cfg fl₀ a).files d).id ≠ 0) {c' : Ctx}
    (hc : c' = c.withScratch ((image cfg fl₀ a).files d).lblock
      ((image cfg fl₀ a).blocks ((image cfg fl₀ a).files d).lblock).phyId)
    (hr : Ready cfg fl₀ a s c' fl) (ht : TableStaged cfg s (image cfg fl₀ a) d fl)
    (hdata : DataStaged cfg s (image cfg fl₀ a) d fl)
    (hlb0 : ((image cfg fl₀ a).files d).lblock ≠ 0 → ∀ o, cfg.metaEnd ≤ o →
      o < (image cfg fl₀ a).dataEnd cfg 0 → fl.byte cfg.eraseVal s o = (image cfg fl₀ a).data 0 o) :
    DeleteStep cfg s (image cfg fl₀ a) d
      (stagedImage cfg fl s (nextHeader cfg fl s c'.metaBlockHeader)) := by
  obtain ⟨hl, _, _⟩ := h.wf.sizes d hd hid
  -- the block of the file
  have hown : ∀ o, (stagedImage cfg fl s (nextHeader cfg fl s c'.metaBlockHeader)).data
      ((image cfg fl₀ a).files d).lblock o =
      fl.byte cfg.eraseVal (stageBlock s (image cfg fl₀ a) ((image cfg fl₀ a).files d).lblock) o := by
    intro o
    rw [stagedImage_data (hdata.blocks _ hl), if_pos rfl]
    split_ifs with h0
    · rw [h0]
      rfl
    · rfl
  refine ⟨⟨?_, ?_, hdata.blocks⟩, fun i hi => ?_, fun o h₁ h₂ => (hown o).trans (hdata.kept o h₁ h₂),
    fun k hk => (hown _).trans (hdata.moved k hk),
    fun o h₁ h₂ => (hown o).trans (hdata.rest o h₁ h₂), fun l hl' hne o h₁ h₂ => ?_⟩
  · show c'.metaBlockHeader.fsVersion = _
    rw [hc, Ctx.withScratch_version, h.header]
  · show c'.metaBlockHeader.scratchDblock = _
    rw [hc, Ctx.withScratch_dblock, h.header]
    simp only [Bool.true_eq_false, or_false]
  · show (image cfg fl s).files i = _
    split_ifs with hi'
    · exact hi' ▸ ht.zero
    · exact ht.others i hi hi'
  · rw [stagedImage_data (hdata.blocks l hl'), if_neg hne]
    split_ifs with h0
    · subst h0
      rw [h.wf.lb0.2] at h₁
      exact hlb0 (Ne.symm hne) o h₁ h₂
    · exact hr.byte_eq hl' o

/-- The header of the context commits the update that is staged. -/
theorem DeleteStaged.header {x : Nat × Nat} {c₁ : Ctx} {fl₁ : Flash}
    (h : DeleteStaged cfg fl₀ a s d c x c₁ fl₁) (hc : c.metaBlockHeader = (image cfg fl₀ a).header) :
    c₁.metaBlockHeader.activeSwapCount = (image cfg fl₀ a).header.activeSwapCount ∧
      c₁.metaBlockHeader.scratchDblock < 2 ^ 32 := by
  rw [h.ctx]
  refine ⟨by rw [Ctx.withScratch_swapCount, hc], ?_⟩
  rw [Ctx.withScratch_dblock]
  split_ifs
  · rw [hc]
    exact Bytes.field_lt _ 0 4
  · exact (image_blocks_inRange cfg fl₀ a _).1

theorem Starts.deleteIdx_ok (h : Starts cfg fl₀ a s strict c) (hd : d < cfg.maxNumFiles)
    (hid : ((image cfg fl₀ a).files d).id ≠ 0) :
    (flashFsDeleteIdx cfg d).Ok cfg.eraseVal
      (UpdateOp cfg fl₀ a s strict (DeleteStep cfg s (image cfg fl₀ a) d)) c fl₀
      fun _ c' fl' => Updated cfg fl₀ a s (DeleteStep cfg s (image cfg fl₀ a) d) c' fl' := by
  rw [deleteIdx_eq]
  refine (h.deleteIdxStage_ok hd hid).bind fun x c₁ fl₁ hst => ?_
  refine (hst.complete_ok hd hid).bind ?_
  rintro _ c₁ fl₂ ⟨rfl, hr, ht, hdata, hlb0⟩
  exact hr.finalize_ok (hst.header h.header).1 (hst.header h.header).2
    (h.deleteStep hd hid hst.ctx hr ht hdata hlb0)

end Etss
