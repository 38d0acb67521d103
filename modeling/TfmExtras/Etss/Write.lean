import TfmExtras.Etss.Delete
import TfmExtras.Etss.WriteStep

/-! Writing a file: the functions of `etss_flash_fs.c` follow the plan and make the step of the
filesystem. -/

namespace Etss
open NorFlash NorFlash.Flash FlashM

variable {cfg : Config} {s a : Nat} {strict : Prop} {P : Image → Prop} {c : Ctx} {fl fl₀ : Flash}
  {r : WriteReq} {t : WriteTarget} {p : WritePlan}

/-! ## Looking the file up -/

/-- The entry of a file that is going to be replaced. -/
def markRegion (cfg : Config) (s : Nat) (t : WriteTarget) : Region := fun b o =>
  t.Replaces ∧ fileRange cfg s t.oldIdx (t.oldIdx + 1) b o

/-- After the lookup: the entry of a replaced file is marked. -/
structure LookedUp (cfg : Config) (fl₀ : Flash) (a s : Nat) (c : Ctx) (t : WriteTarget)
    (fl : Flash) : Prop extends Ready cfg fl₀ a s c fl where
  changed : OnlyIn (markRegion cfg s t) fl₀ fl
  mark : t.Replaces → (image cfg fl s).files t.oldIdx = t.fileMeta

theorem mark_inRange {fileMeta : FileMeta} (h : fileMeta.InRange) : fileMeta.mark.InRange :=
  ⟨h.lblock, h.dataIdx, h.curSize, h.maxSize, Nat.or_lt_two_pow h.flags (by decide)⟩

theorem Starts.fileWriteLookup_wp (h : Starts cfg fl₀ a s strict c) {Q : Post Ctx Status WriteTarget}
    (herr : ∀ e, (image cfg fl₀ a).writeTarget cfg r = .error e → Q (.error e) c fl₀)
    (hok : ∀ t, (image cfg fl₀ a).writeTarget cfg r = .ok t → ∀ fl,
      LookedUp cfg fl₀ a s c t fl → Q (.ok t) c fl) :
    (fileWriteLookup cfg r.fid r.flags (r.max cfg)).wp cfg.eraseVal
      (UpdateOp cfg fl₀ a s strict P) c fl₀ Q := by
  have hr := h.toReady
  have hmax := cfg.maxNumFiles_lt
  have hfind : (flashFsMblockGetFileIdx cfg r.fid).Query cfg.eraseVal
      (UpdateOp cfg fl₀ a s strict P) c fl₀ (findFile cfg (image cfg fl₀ a).files
        (fun fileMeta => fileMeta.id == r.fid) cfg.maxNumFiles 0) := by
    have hle : 0 + cfg.maxNumFiles ≤ cfg.maxNumFiles := (Nat.zero_add _).le
    rw [← h.active]
    exact findFileMeta_query allowsReads_updateOp h.accepted (h.active ▸ h.a_lt) _ hle
  -- what is found without a replacement
  have hplain : ∀ t, ¬ t.Replaces → LookedUp cfg fl₀ a s c t fl₀ := fun t ht =>
    ⟨hr, .refl _ _, fun hc => absurd hc ht⟩
  unfold fileWriteLookup
  unfold Image.writeTarget at herr hok
  rcases h.wf.findFile_cases h.accepted (fun fileMeta => fileMeta.id == r.fid) (i := 0)
    (n := cfg.maxNumFiles) (by omega) with ⟨i, _, hi, _, he⟩ | ⟨_, he⟩
  · rw [he] at hfind herr hok
    have hi' : i < cfg.maxNumFiles := by omega
    refine hfind.attempt.seq_wp ((hr.readFile allowsReads_updateOp hi').failAs.seq_wp ?_)
    dsimp only at hok
    split_ifs with htr hsz
    · rw [if_pos htr, if_pos hsz] at hok
      have hn : ¬ i = metadataInvalidIndex := by unfold metadataInvalidIndex; omega
      exact (wp_pure _).mpr (hok _ rfl fl₀ (hplain _ fun hc => hn hc.2))
    · rw [if_pos htr, if_neg hsz] at hok
      have hrep : (WriteTarget.mk i metadataInvalidIndex ((image cfg fl₀ a).files i).mark).Replaces :=
        ⟨by unfold metadataInvalidIndex; show i ≠ _; omega, rfl⟩
      refine ((staged_ok hr.only (hr.writeFile_ok hi'
        (mark_inRange (image_files_inRange cfg fl₀ a i)) fun hs => (h.files_clean hs).mono
          (fileRange_mono (Nat.zero_le i) (Nat.succ_le_of_lt hi')))).failAs).bind_wp ?_
      rintro _ c fl₁ ⟨rfl, hf₁, hm⟩
      exact (wp_pure _).mpr (hok _ rfl fl₁ ⟨hr.next_fileRange hf₁,
        hf₁.mono fun _ _ hw => ⟨hrep, hw⟩, fun _ => hm⟩)
    · rw [if_neg htr] at hok
      have hn : ¬ i = metadataInvalidIndex := by unfold metadataInvalidIndex; omega
      exact (wp_pure _).mpr (hok _ rfl fl₀ (hplain _ fun hc => hn hc.2))
  · rw [he] at hfind herr hok
    refine hfind.attempt.seq_wp ?_
    dsimp only at hok herr ⊢
    unfold failIf
    split_ifs with hc
    · rw [if_pos hc] at herr
      exact (query_fail _).seq_error.wp (herr _ rfl)
    · rw [if_neg hc] at hok
      exact (query_pure ()).seq_wp ((wp_pure _).mpr (hok _ rfl fl₀ (hplain _ fun hc => hc.1 rfl)))

/-! ## Reserving an entry and space -/

theorem Ready.fileWriteReserve_query (h : Ready cfg fl₀ a s c fl) {G : Prog.Guard}
    (hG : AllowsReads cfg G)
    (hl : t.newIdx ≠ metadataInvalidIndex → t.fileMeta.lblock < numActiveDblocks cfg) :
    (fileWriteReserve cfg r.fid r.flags (r.max cfg) t).Query cfg.eraseVal G c fl
      ((image cfg fl₀ a).writeReserve cfg r t) := by
  have hac : c.activeMetablock < cfg.numBlocks := h.active ▸ h.a_lt
  have hblocks : (image cfg fl c.activeMetablock).blocks = (image cfg fl₀ a).blocks := by
    rw [h.active]
    exact funext h.blocks_eq
  have hfiles : (image cfg fl c.activeMetablock).files = (image cfg fl₀ a).files := by
    rw [h.active]
    exact funext h.files_eq
  unfold fileWriteReserve Image.writeReserve
  split_ifs with hn hmax
  · unfold failIf
    rw [if_pos hmax]
    exact (query_fail _).seq_error
  · unfold failIf
    rw [if_neg hmax]
    refine (query_pure ()).seq ?_
    have hres : (mblockReserveFileLoop cfg r.fid (r.max cfg) r.flags (numActiveDblocks cfg)
        0).Query cfg.eraseVal G c fl (reserveIn cfg (image cfg fl₀ a).blocks r.fid (r.max cfg)
          r.flags (numActiveDblocks cfg) 0) := by
      rw [← hblocks]
      exact reserveFileLoop_query hG h.accepted hac _ _ _ (Nat.zero_add _).le
    have hidx : (getFreeFileIndexLoop cfg cfg.maxNumFiles 0
        (decide (t.oldIdx ≠ metadataInvalidIndex))).Query cfg.eraseVal G c fl
          (.ok (freeIndex cfg (image cfg fl₀ a).files cfg.maxNumFiles 0
            (decide (t.oldIdx ≠ metadataInvalidIndex)))) := by
      rw [← hfiles]
      exact getFreeFileIndexLoop_query hG h.accepted hac (Nat.zero_add _).le _
    refine hres.attempt.seq (hidx.seq ?_)
    cases reserveIn cfg (image cfg fl₀ a).blocks r.fid (r.max cfg) r.flags (numActiveDblocks cfg) 0 with
    | error e => exact query_fail _
    | ok q =>
      obtain ⟨fileMeta, blockMeta⟩ := q
      dsimp only
      split_ifs
      · exact query_fail _
      · exact query_pure _
  · exact (h.readBlock hG (hl hn)).failAs.seq (query_pure _)

/-! ## Writing the data -/

/-- The block entry once the data is written: the file is now in the scratch block. -/
def WritePlan.block (s : Nat) (st : Image) (r : WriteReq) (p : WritePlan) : BlockMeta :=
  { p.blockMeta with phyId :=
      if r.dataSize = 0 then p.blockMeta.phyId else stageBlock s st p.fileMeta.lblock }

/-- After the data is written. -/
structure DataWritten (cfg : Config) (fl₀ : Flash) (a s : Nat) (r : WriteReq) (p : WritePlan)
    (c : Ctx) (fl : Flash) (c' : Ctx) (fl' : Flash) : Prop extends Ready cfg fl₀ a s c' fl' where
  changed : OnlyIn (fun b o => r.dataSize ≠ 0 ∧
    dataRange cfg s (image cfg fl₀ a) p.fileMeta.lblock b o) fl fl'
  ctx : c' = if r.dataSize = 0 then c else c.withScratch p.fileMeta.lblock p.blockMeta.phyId
  written : r.dataSize ≠ 0 → Written cfg s (image cfg fl₀ a) p.fileMeta r.offset (r.size cfg)
    r.data (cfg.blockSize - p.blockMeta.freeSize) fl fl'

theorem writeAlignedData_error {G : Prog.Guard}
    (hf : ¬ r.Fits cfg p.fileMeta) : ((flashFsFileWriteAlignedData cfg p.blockMeta p.fileMeta
      r.offset r.dataSize r.data).failAs .genericError).Query cfg.eraseVal G c fl
        (.error .genericError) := by
  have hq : ∃ e, (flashFsFileWriteAlignedData cfg p.blockMeta p.fileMeta r.offset r.dataSize
      r.data).Query cfg.eraseVal G c fl (.error e) := by
    unfold flashFsFileWriteAlignedData
    by_cases hal : utilsIsAligned r.offset cfg.programUnit = false
    · exact ⟨_, (query_failIf_of hal).seq_error⟩
    by_cases hoff : r.offset > p.fileMeta.curSize
    · exact ⟨_, (query_failIf_of_not hal).seq (query_failIf_of hoff).seq_error⟩
    refine ⟨.invalidArgument, (query_failIf_of_not hal).seq ((query_failIf_of_not hoff).seq ?_)⟩
    cases hc : utilsCheckContainedIn p.fileMeta.maxSize r.offset
        (utilsAlign r.dataSize cfg.programUnit) with
    | error e => exact (query_ofExcept (Except.error e)).failAs.seq_error
    | ok u =>
      refine absurd (.inr ⟨?_, Nat.not_lt.mp hoff, utilsCheckContainedIn_eq_ok.mp hc⟩) hf
      exact Bool.not_eq_false _ ▸ hal
  obtain ⟨e, hq⟩ := hq
  exact hq.failAs

theorem Ready.fileWriteData_wp (h : Ready cfg fl₀ a s c fl)
    (hsc : c.metaBlockHeader.scratchDblock = (image cfg fl₀ a).header.scratchDblock)
    (hr : r.InRange) (hpl : r.Fits cfg p.fileMeta → p.Placed cfg (image cfg fl₀ a) r)
    (hc : ∀ l, l < numActiveDblocks cfg → Clean (dataRange cfg s (image cfg fl₀ a) l) fl)
    {Q : Post Ctx Status (FileMeta × BlockMeta)}
    (herr : ¬ r.Fits cfg p.fileMeta → Q (.error .genericError) c fl)
    (hok : r.Fits cfg p.fileMeta → ∀ c' fl', DataWritten cfg fl₀ a s r p c fl c' fl' →
      Q (.ok (p.entry r, p.block s (image cfg fl₀ a) r)) c' fl') :
    (fileWriteData cfg p.fileMeta p.blockMeta r.dataSize r.offset r.data).wp cfg.eraseVal
      (UpdateOp cfg fl₀ a s strict P) c fl Q := by
  unfold fileWriteData
  by_cases h0 : r.dataSize = 0
  · rw [if_neg (not_not.mpr h0)]
    have hfits : r.Fits cfg p.fileMeta := .inl h0
    have hent : p.entry r = p.fileMeta := if_neg fun hc => hc.1 h0
    have hblk : p.block s (image cfg fl₀ a) r = p.blockMeta := by
      unfold WritePlan.block
      rw [if_pos h0]
    have hk := hok hfits c fl ⟨h, .refl _ _, (if_pos h0).symm, fun hc => absurd h0 hc⟩
    rw [hent, hblk] at hk
    exact (wp_pure _).mpr hk
  rw [if_pos h0]
  by_cases hfits : r.Fits cfg p.fileMeta
  · have hp := hpl hfits
    have hal := (hfits.resolve_left h0).1
    obtain ⟨hcur, hend⟩ := WritePlan.fits_size_le hfits h0
    have hin : utilsCheckContainedIn p.fileMeta.maxSize r.offset
        (utilsAlign r.dataSize cfg.programUnit) = .ok () := utilsCheckContainedIn_eq_ok.mpr hend
    have hw : (flashFsFileWriteAlignedData cfg p.blockMeta p.fileMeta r.offset r.dataSize
        r.data).Ok cfg.eraseVal (StageOp cfg s (image cfg fl₀ a).header.scratchDblock strict) c fl
          fun _ c' fl' => c' = c ∧ Written cfg s (image cfg fl₀ a) p.fileMeta r.offset (r.size cfg)
            r.data (cfg.blockSize - p.blockMeta.freeSize) fl fl' := by
      unfold flashFsFileWriteAlignedData
      refine (query_failIf_of_not (by rw [hal]; exact Bool.noConfusion)).seq_wp
        ((query_failIf_of_not (Nat.not_lt.mpr hcur)).seq_wp ((query_check hin).seq_wp ?_))
      have hfree := h.wf.freeSize_le _ hp.lblock_lt
      have hble := hp.freeSize
      refine h.dblockWriteFile_ok hsc hp.lblock_lt hp.phyId hp.dataStart
        (hp.dataStart.trans_le hp.le_dataIdx) hend (by omega) hp.end_le (fun ha => ?_)
        (hc _ hp.lblock_lt)
      obtain ⟨k, hk, hpu⟩ := ha.eq_two_pow
      obtain ⟨h₁, h₂, h₃⟩ := hp.aligned ha
      rw [hpu] at hal ⊢
      rw [hpu] at h₁ h₂ h₃
      exact ⟨h₁, (utilsIsAligned_iff (by omega)).mp hal,
        utilsAlign_dvd hr.dataSize_lt (by omega), h₂, h₃⟩
    refine ((staged_ok h.only hw).failAs).bind_wp ?_
    rintro _ c fl₁ ⟨rfl, hwr⟩
    have hr₁ := h.next_dataRange hp.lblock_lt rfl rfl hwr.only
    have hent : p.entry r = if add32 r.offset r.dataSize > p.fileMeta.curSize then
        { p.fileMeta with curSize := add32 r.offset r.dataSize } else p.fileMeta := by
      unfold WritePlan.entry
      simp only [ne_eq, h0, not_false_eq_true, true_and]
    rw [← hent]
    dsimp only
    simp only [WritePlan.entry_lblock]
    refine (hr₁.curDataScratchId_query p.fileMeta.lblock hsc).seq_wp ?_
    refine (setDataScratch_ok _ _).bind_wp ?_
    rintro _ _ fl₁ ⟨rfl, rfl⟩
    have hblk : p.block s (image cfg fl₀ a) r = { p.blockMeta with
        phyId := stageBlock s (image cfg fl₀ a) p.fileMeta.lblock } := by
      unfold WritePlan.block
      rw [if_neg h0]
    have hk := hok hfits _ fl₁ ⟨hr₁.next_dataRange hp.lblock_lt (Ctx.withScratch_active ..)
      (Ctx.withScratch_scratch ..) (.refl _ _), hwr.only.mono fun _ _ hw => ⟨h0, hw⟩, (if_neg h0).symm, fun _ => hwr⟩
    rw [hblk] at hk
    exact (wp_pure _).mpr hk
  · exact (writeAlignedData_error hfits).seq_error.wp (herr hfits)

/-! ## Completing the metadata -/

/-- The file entries from `lo` on that a write copies. -/
def copiedFiles (cfg : Config) (s : Nat) (p : WritePlan) (lo : Nat) : Region := fun b o =>
  fileRange cfg s lo cfg.maxNumFiles b o ∧ ¬ fileRange cfg s p.newIdx (p.newIdx + 1) b o ∧
    ¬ fileRange cfg s p.oldIdx (p.oldIdx + 1) b o

theorem copiedFiles_mono {lo lo' : Nat} (h : lo' ≤ lo) (b o : Nat)
    (hw : copiedFiles cfg s p lo b o) : copiedFiles cfg s p lo' b o :=
  ⟨fileRange_mono h le_rfl b o hw.1, hw.2⟩

/-- One run of entries, between those that are not copied. -/
theorem Ready.copyPiece_ok (h : Ready cfg fl₀ a s c fl) {lo hi : Nat} (hlo : lo ≤ hi)
    (hhi : hi ≤ cfg.maxNumFiles) (hn : p.newIdx < lo ∨ hi ≤ p.newIdx)
    (ho : p.oldIdx < lo ∨ hi ≤ p.oldIdx) (hc : strict → Clean (copiedFiles cfg s p lo) fl) :
    ((flashFsMblockCpFileMeta cfg lo hi).failAs .genericError).Ok cfg.eraseVal
      (UpdateOp cfg fl₀ a s strict P) c fl fun _ c' fl' => c' = c ∧ Ready cfg fl₀ a s c fl' ∧
        OnlyIn (copiedFiles cfg s p lo) fl fl' ∧ OnlyIn (fileRange cfg s lo hi) fl fl' ∧
        (strict → Clean (copiedFiles cfg s p hi) fl') ∧
        ∀ i, lo ≤ i → i < hi → (image cfg fl' s).files i = (image cfg fl₀ a).files i := by
  have hsub : ∀ b o, fileRange cfg s lo hi b o → copiedFiles cfg s p lo b o := fun b o hw =>
    ⟨fileRange_mono le_rfl hhi b o hw, fileRange_apart (by omega) b o hw,
      fileRange_apart (by omega) b o hw⟩
  refine Ok.failAs (Ok.mono (staged_ok h.only (h.cpFileMeta_ok hlo hhi
    fun hs => (hc hs).mono hsub)) ?_)
  rintro _ _ fl' ⟨rfl, hf, hfiles⟩
  exact ⟨rfl, h.next_fileRange hf, hf.mono hsub, hf, fun hs => hf.clean
    ((hc hs).mono (copiedFiles_mono hlo)) fun b o hw => fileRange_apart (.inr le_rfl) b o hw.1,
    hfiles⟩

/-- The file table is copied around the entries of the write. -/
theorem Ready.copyTable_ok (h : Ready cfg fl₀ a s c fl) (hnew : p.newIdx < cfg.maxNumFiles)
    (hold : p.oldIdx = metadataInvalidIndex ∨ p.oldIdx < cfg.maxNumFiles)
    (hc : strict → Clean (copiedFiles cfg s p 0) fl) {k : Unit → FsM Unit}
    {R : Unit → Ctx → Flash → Prop}
    (hk : ∀ fl', Ready cfg fl₀ a s c fl' → OnlyIn (copiedFiles cfg s p 0) fl fl' →
      (∀ i, i < cfg.maxNumFiles → i ≠ p.newIdx → i ≠ p.oldIdx →
        (image cfg fl' s).files i = (image cfg fl₀ a).files i) →
      (k ()).Ok cfg.eraseVal (UpdateOp cfg fl₀ a s strict P) c fl' R) :
    (do
      (flashFsMblockCpFileMeta cfg 0 (min p.newIdx p.oldIdx)).failAs .genericError
      let idx ← if p.oldIdx ≠ metadataInvalidIndex ∧ p.oldIdx ≠ p.newIdx then do
          (flashFsMblockCpFileMeta cfg (min p.newIdx p.oldIdx + 1)
            (max p.newIdx p.oldIdx)).failAs .genericError
          pure (max p.newIdx p.oldIdx)
        else pure (min p.newIdx p.oldIdx)
      (flashFsMblockCpFileMeta cfg (idx + 1) cfg.maxNumFiles).failAs .genericError
      k () : FsM Unit).Ok cfg.eraseVal (UpdateOp cfg fl₀ a s strict P) c fl R := by
  have hmax := cfg.maxNumFiles_lt
  unfold metadataInvalidIndex at hold
  refine Ok.bind (h.copyPiece_ok (p := p) (Nat.zero_le _) (by omega) (by omega) (by omega) hc) ?_
  rintro _ c fl₁ ⟨rfl, h₁, hw₁, hf₁, hc₁, hb₁⟩
  split_ifs with h2
  · unfold metadataInvalidIndex at h2
    refine Ok.bind (h₁.copyPiece_ok (p := p) (by omega) (by omega) (by omega) (by omega)
      fun hs => (hc₁ hs).mono (copiedFiles_mono (Nat.le_succ _))) ?_
    rintro _ c fl₂ ⟨rfl, h₂, hw₂, hf₂, hc₂, hb₂⟩
    refine (query_pure _).seq_wp ?_
    refine Ok.bind (h₂.copyPiece_ok (p := p) (by omega) le_rfl (by omega) (by omega)
      fun hs => (hc₂ hs).mono (copiedFiles_mono (Nat.le_succ _))) ?_
    rintro _ c fl₃ ⟨rfl, h₃, hw₃, hf₃, _, hb₃⟩
    refine hk fl₃ h₃ ((hw₁.trans (hw₂.mono (copiedFiles_mono (Nat.zero_le _)))).trans
      (hw₃.mono (copiedFiles_mono (Nat.zero_le _)))) fun i hi hin hio => ?_
    by_cases hlt : max p.newIdx p.oldIdx < i
    · exact hb₃ i hlt hi
    rw [files_eq_of_fileRange hf₃ (by omega)]
    by_cases hlt' : min p.newIdx p.oldIdx < i
    · exact hb₂ i hlt' (by omega)
    rw [files_eq_of_fileRange hf₂ (by omega)]
    exact hb₁ i (Nat.zero_le i) (by omega)
  · unfold metadataInvalidIndex at h2
    refine (query_pure _).seq_wp ?_
    refine Ok.bind (h₁.copyPiece_ok (p := p) (by omega) le_rfl (by omega) (by omega)
      fun hs => (hc₁ hs).mono (copiedFiles_mono (Nat.le_succ _))) ?_
    rintro _ c fl₃ ⟨rfl, h₃, hw₃, hf₃, _, hb₃⟩
    refine hk fl₃ h₃ (hw₁.trans (hw₃.mono (copiedFiles_mono (Nat.zero_le _)))) fun i hi hin hio => ?_
    by_cases hlt' : min p.newIdx p.oldIdx < i
    · exact hb₃ i hlt' (by omega)
    rw [files_eq_of_fileRange hf₃ (by omega)]
    exact hb₁ i (Nat.zero_le i) (by omega)

/-- What is in the scratch blocks before the commit of a write. -/
structure WriteStaged (cfg : Config) (s : Nat) (st : Image) (r : WriteReq) (p : WritePlan)
    (fl : Flash) : Prop where
  blocks : ∀ l, l < numActiveDblocks cfg → (image cfg fl s).blocks l =
    stagedBlock s st.blocks p.fileMeta.lblock (p.block s st r) l
  files : ∀ i, i < cfg.maxNumFiles → (image cfg fl s).files i =
    if i = p.newIdx then p.entry r else if i = p.oldIdx then (st.files i).mark else st.files i
  written : r.dataSize ≠ 0 → ∃ fl₁ fl₂, Written cfg s st p.fileMeta r.offset (r.size cfg) r.data
    (cfg.blockSize - p.blockMeta.freeSize) fl₁ fl₂ ∧
    ∀ o, (st.blocks p.fileMeta.lblock).dataStart ≤ o → o < cfg.blockSize →
      fl.byte cfg.eraseVal (stageBlock s st p.fileMeta.lblock) o =
        fl₂.byte cfg.eraseVal (stageBlock s st p.fileMeta.lblock) o
  lb0 : p.fileMeta.lblock ≠ 0 ∨ r.dataSize = 0 → (∀ o, cfg.metaEnd ≤ o → o < st.dataEnd cfg 0 →
    fl.byte cfg.eraseVal s o = st.data 0 o) ∧
    ∀ o, st.dataEnd cfg 0 ≤ o → o < cfg.blockSize → fl.byte cfg.eraseVal s o = cfg.eraseVal

/-- The plan of a target: only a replacement leaves two entries, and marks the old one. -/
structure WritePlan.Of (cfg : Config) (p : WritePlan) (st : Image) (t : WriteTarget) : Prop where
  oldIdx : t.oldIdx = p.oldIdx
  range : p.oldIdx = metadataInvalidIndex ∨ p.oldIdx < cfg.maxNumFiles
  replaces : t.Replaces ↔ p.oldIdx ≠ metadataInvalidIndex ∧ p.oldIdx ≠ p.newIdx
  mark : t.Replaces → t.fileMeta = (st.files p.oldIdx).mark

theorem WritePlan.block_inRange (h : Ready cfg fl₀ a s c fl)
    (hp : p.Placed cfg (image cfg fl₀ a) r) : (p.block s (image cfg fl₀ a) r).InRange := by
  have hbs := cfg.blockSize_lt
  have hnb := cfg.numBlocks_lt
  have hfs := h.wf.freeSize_le _ hp.lblock_lt
  have hfree := hp.freeSize
  have hstart := hp.dataStart
  refine ⟨?_, show p.blockMeta.dataStart < 2 ^ 32 by omega,
    show p.blockMeta.freeSize < 2 ^ 32 by omega⟩
  show (if r.dataSize = 0 then p.blockMeta.phyId else stageBlock s _ _) < 2 ^ 32
  unfold stageBlock
  split_ifs with h0 hl0
  · rw [hp.phyId]
    exact (image_blocks_inRange cfg fl₀ a _).1
  · have := h.s_le
    omega
  · exact Bytes.field_lt _ 0 4

theorem Starts.fileWriteMeta_ok {c₂ : Ctx} {fl₁ fl₂ : Flash} (h : Starts cfg fl₀ a s strict c)
    (hl : LookedUp cfg fl₀ a s c t fl₁) (hd : DataWritten cfg fl₀ a s r p c fl₁ c₂ fl₂)
    (hp : p.Sound cfg (image cfg fl₀ a) r) (hi : r.InRange)
    (ht : p.Of cfg (image cfg fl₀ a) t) :
    (fileWriteMeta cfg p.oldIdx p.newIdx (p.entry r) (p.block s (image cfg fl₀ a) r)
      r.dataSize).Ok cfg.eraseVal (UpdateOp cfg fl₀ a s strict P) c₂ fl₂ fun _ c' fl' =>
        c' = c₂ ∧ Ready cfg fl₀ a s c₂ fl' ∧ WriteStaged cfg s (image cfg fl₀ a) r p fl' := by
  have hr := h.toReady
  have hpl := hp.placed h.wf hi
  have hlb := hpl.lblock_lt
  have hnew := hp.newIdx_lt
  have hin := hp.entry_inRange hi h.accepted (image_files_inRange cfg fl₀ a p.newIdx)
  -- the metadata is not touched by the data
  have hdata : ∀ {lo hi : Nat}, hi ≤ cfg.maxNumFiles → ∀ b o, fileRange cfg s lo hi b o →
      ¬ (r.dataSize ≠ 0 ∧ dataRange cfg s (image cfg fl₀ a) p.fileMeta.lblock b o) :=
    fun hhi b o hw hw' => hr.dataRange_apart hlb (h.accepted.fileEntry_le hhi) b o hw hw'.2
  have hcb : Clean (blockRange s 0 (numActiveDblocks cfg)) fl₂ := by
    refine hd.changed.clean (hl.changed.clean h.blocks_clean fun b o hw hw' =>
      fileRange_apart_blockRange le_rfl b o hw hw'.2) fun b o hw hw' => ?_
    exact hr.dataRange_apart hlb (by
      unfold Config.metaEnd Config.fileEntry Config.filesStart
      omega) b o hw hw'.2
  have hcf : strict → Clean (fun b o => fileRange cfg s 0 cfg.maxNumFiles b o ∧
      ¬ markRegion cfg s t b o) fl₂ := fun hs =>
    hd.changed.clean (hl.changed.clean ((h.files_clean hs).mono fun _ _ hw => hw.1)
      fun _ _ hw => hw.2) fun b o hw => hdata le_rfl b o hw.1
  have hnm : ∀ b o, fileRange cfg s p.newIdx (p.newIdx + 1) b o → ¬ markRegion cfg s t b o := by
    rintro b o hw ⟨hrep, hw'⟩
    have hne := (ht.replaces.mp hrep).2
    rw [ht.oldIdx] at hw'
    exact fileRange_apart (by omega) b o hw hw'
  unfold fileWriteMeta
  rw [WritePlan.entry_lblock]
  have h₂ := hd.toReady
  refine Ok.bind (staged_ok h₂.only (h₂.updateScratchBlockMeta_ok hlb
    (WritePlan.block_inRange hr hpl) fun _ => hcb)).failAs ?_
  rintro _ c₂ fl₃ ⟨rfl, hf₃, hb₃⟩
  have h₃ := h₂.next_blockRange hf₃
  have hcf₃ : strict → Clean (fun b o => fileRange cfg s 0 cfg.maxNumFiles b o ∧
      ¬ markRegion cfg s t b o) fl₃ := fun hs => hf₃.clean (hcf hs)
    fun b o hw hw' => fileRange_apart_blockRange le_rfl b o hw' hw.1
  refine Ok.bind (staged_ok h₃.only (h₃.writeFile_ok hnew hin fun hs => (hcf₃ hs).mono
    fun b o hw => ⟨fileRange_mono (Nat.zero_le _) (Nat.succ_le_of_lt hnew) b o hw,
      hnm b o hw⟩)).failAs ?_
  rintro _ c₂ fl₄ ⟨rfl, hf₄, hfile₄⟩
  have h₄ := h₃.next_fileRange hf₄
  have hcopy : strict → Clean (copiedFiles cfg s p 0) fl₄ := fun hs => hf₄.clean
    ((hcf₃ hs).mono fun b o hw => ⟨hw.1, fun hm => hw.2.2 (ht.oldIdx ▸ hm.2)⟩)
    fun b o hw => hw.2.1
  refine h₄.copyTable_ok (p := p) (k := fun _ =>
    if p.fileMeta.lblock ≠ logicalDblock0 ∨ r.dataSize = 0 then
      (flashFsMblockMigrateLb0DataToScratch cfg).failAs .genericError
    else pure ()) hnew ht.range hcopy fun fl₅ h₅ hw₅ hfiles₅ => ?_
  have hold : ∀ i, i < cfg.maxNumFiles → i ≠ p.newIdx → i = p.oldIdx →
      (image cfg fl₅ s).files i = ((image cfg fl₀ a).files i).mark := by
    rintro i hi hn rfl
    have hrep := ht.replaces.mpr ⟨by unfold metadataInvalidIndex; have := cfg.maxNumFiles_lt; omega, hn⟩
    have hin : ∀ o, cfg.fileEntry p.oldIdx ≤ o → o < cfg.fileEntry (p.oldIdx + 1) →
        fileRange cfg s p.oldIdx (p.oldIdx + 1) s o := fun o h₁ h₂ => ⟨rfl, h₁, h₂⟩
    have he₁ := hl.mark hrep
    rw [ht.oldIdx, ht.mark hrep] at he₁
    rw [← he₁, image_files_congr hw₅ fun o h₁ h₂ hw => hw.2.2 (hin o h₁ h₂),
      image_files_congr hf₄ fun o h₁ h₂ => fileRange_apart (by omega) s o (hin o h₁ h₂),
      image_files_congr hf₃ fun o h₁ h₂ hw => fileRange_apart_blockRange le_rfl s o hw (hin o h₁ h₂),
      image_files_congr hd.changed fun o h₁ h₂ => hdata (Nat.succ_le_of_lt hi) s o (hin o h₁ h₂)]
  have hstaged : ∀ fl', OnlyIn (fun b o => (p.fileMeta.lblock ≠ 0 ∨ r.dataSize = 0) ∧
      range s cfg.metaEnd cfg.blockSize b o) fl₅ fl' →
      (p.fileMeta.lblock ≠ 0 ∨ r.dataSize = 0 → (∀ o, cfg.metaEnd ≤ o →
        o < (image cfg fl₀ a).dataEnd cfg 0 →
          fl'.byte cfg.eraseVal s o = (image cfg fl₀ a).data 0 o) ∧
        ∀ o, (image cfg fl₀ a).dataEnd cfg 0 ≤ o → o < cfg.blockSize →
          fl'.byte cfg.eraseVal s o = cfg.eraseVal) →
      WriteStaged cfg s (image cfg fl₀ a) r p fl' := by
    intro fl' hf' hlb0
    have hmeta : ∀ {lo hi : Nat}, hi ≤ cfg.maxNumFiles → ∀ b o, fileRange cfg s lo hi b o →
        ¬ ((p.fileMeta.lblock ≠ 0 ∨ r.dataSize = 0) ∧ range s cfg.metaEnd cfg.blockSize b o) :=
      fun hhi b o hw hw' => by
        have h₁ := hw.2.2
        have h₂ := hw'.2.2.1
        have h₃ := h.accepted.fileEntry_le hhi
        unfold Config.metaEnd at h₂
        omega
    refine ⟨fun l hl' => ?_, fun i hi => ?_, fun h0 => ⟨fl₁, fl₂, hd.written h0, fun o h₁ h₂ => ?_⟩,
      hlb0⟩
    · have hin : ∀ o, 8 + 12 * l ≤ o → o < 8 + 12 * (l + 1) →
          blockRange s 0 (numActiveDblocks cfg) s o := fun o h₁ h₂ => ⟨rfl, by omega, by omega⟩
      rw [image_blocks_congr hf' fun o h₁ h₂ hw => ?_,
        image_blocks_congr hw₅ fun o h₁ h₂ hw =>
          fileRange_apart_blockRange le_rfl s o (hin o h₁ h₂) hw.1,
        image_blocks_congr hf₄ fun o h₁ h₂ => fileRange_apart_blockRange le_rfl s o (hin o h₁ h₂),
        hb₃ l hl']
      have h₃ := hw.2.2.1
      unfold Config.metaEnd Config.fileEntry Config.filesStart at h₃
      omega
    · have hin : ∀ o, cfg.fileEntry i ≤ o → o < cfg.fileEntry (i + 1) →
          fileRange cfg s i (i + 1) s o := fun o h₁ h₂ => ⟨rfl, h₁, h₂⟩
      rw [image_files_congr hf' fun o h₁ h₂ => hmeta (Nat.succ_le_of_lt hi) s o (hin o h₁ h₂)]
      split_ifs with hn ho
      · subst hn
        rw [← hfile₄]
        exact image_files_congr hw₅ fun o h₁ h₂ hw => hw.2.1 (hin o h₁ h₂)
      · exact hold i hi hn ho
      · exact hfiles₅ i hi hn ho
    · have hin : dataRange cfg s (image cfg fl₀ a) p.fileMeta.lblock
          (stageBlock s (image cfg fl₀ a) p.fileMeta.lblock) o := ⟨rfl, h₁, h₂⟩
      rw [hf'.byte fun hw => ?_,
        hw₅.byte fun hw => hr.dataRange_apart hlb le_rfl _ o hw.1 hin,
        hf₄.byte fun hw => hr.dataRange_apart hlb
          (h.accepted.fileEntry_le (Nat.succ_le_of_lt hnew)) _ o hw hin,
        hf₃.byte fun hw => hr.dataRange_apart hlb (by
          unfold Config.metaEnd Config.fileEntry Config.filesStart
          omega) _ o hw hin]
      have hl0 := hw.1.resolve_right h0
      have hsb := hw.2.1
      have hsd := (h.wf.scratch (numBlocks_ne_two h.accepted hl0 hlb)).1
      have hsle := h.s_le
      rw [stageBlock, if_neg hl0] at hsb
      omega
  by_cases hmig : p.fileMeta.lblock ≠ 0 ∨ r.dataSize = 0
  · rw [if_pos (show p.fileMeta.lblock ≠ logicalDblock0 ∨ r.dataSize = 0 from hmig)]
    have hstart := h.wf.lb0.2
    have hclean : Clean (range s cfg.metaEnd cfg.blockSize) fl₅ := by
      have hfile : ∀ {lo hi : Nat}, hi ≤ cfg.maxNumFiles → ∀ b o,
          range s cfg.metaEnd cfg.blockSize b o → ¬ fileRange cfg s lo hi b o :=
        fun hhi b o hw hw' => by
          have h₁ := hw.2.1
          have h₂ := hw'.2.2
          have h₃ := h.accepted.fileEntry_le hhi
          unfold Config.metaEnd at h₁
          omega
      have hdat : Clean (range s cfg.metaEnd cfg.blockSize) fl₂ := by
        refine hd.changed.clean (hl.changed.clean ((h.data_clean 0
          h.accepted.numActive_pos).mono fun b o hw => ⟨hw.1, hstart.trans_le hw.2.1, hw.2.2⟩)
          fun b o hw hw' => ?_) fun b o hw hw' => ?_
        · have hrep := ht.replaces.mp hw'.1
          have hlt : t.oldIdx < cfg.maxNumFiles := ht.oldIdx ▸ ht.range.resolve_left hrep.1
          exact hfile (Nat.succ_le_of_lt hlt) b o hw hw'.2
        · have hl0 := hmig.resolve_right hw'.1
          have hsb := hw'.2.1
          have hsd := (h.wf.scratch (numBlocks_ne_two h.accepted hl0 hlb)).1
          have hsle := h.s_le
          have hbs := hw.1
          rw [stageBlock, if_neg hl0] at hsb
          omega
      refine hw₅.clean (hf₄.clean (hf₃.clean hdat fun b o hw hw' => ?_)
        fun b o hw => hfile (Nat.succ_le_of_lt hnew) b o hw) fun b o hw hw' =>
          hfile le_rfl b o hw hw'.1
      have h₁ := hw.2.1
      have h₂ := hw'.2.2
      unfold Config.metaEnd Config.fileEntry Config.filesStart at h₁
      omega
    refine Ok.failAs (Ok.mono (staged_ok h₅.only (h₅.migrateLb0_ok hclean)) ?_)
    rintro _ _ fl₆ ⟨rfl, hf₆, hb₆⟩
    exact ⟨rfl, h₅.next rfl rfl (hf₆.mono (range_stageRegion (metaEnd_ge cfg))),
      hstaged fl₆ (hf₆.mono fun _ _ hw => ⟨hmig, hw⟩) fun _ => hb₆⟩
  · rw [if_neg (show ¬ (p.fileMeta.lblock ≠ logicalDblock0 ∨ r.dataSize = 0) from hmig)]
    exact ok_pure ⟨rfl, h₅, hstaged fl₅ (.refl _ _) fun hc => absurd hc hmig⟩

/-- What is staged, with the header of the context, is the filesystem after the plan. -/
theorem Starts.writeStep {c₂ : Ctx} (h : Starts cfg fl₀ a s strict c)
    (hp : p.Sound cfg (image cfg fl₀ a) r) (hv : r.Valid cfg)
    (hc : c₂ = if r.dataSize = 0 then c else c.withScratch p.fileMeta.lblock p.blockMeta.phyId)
    (hr : Ready cfg fl₀ a s c₂ fl) (hst : WriteStaged cfg s (image cfg fl₀ a) r p fl) :
    WriteStep cfg s (image cfg fl₀ a) r p
      (stagedImage cfg fl s (nextHeader cfg fl s c₂.metaBlockHeader)) := by
  have hpl := hp.placed h.wf hv.inRange
  have hlb := hpl.lblock_lt
  -- the block of the file, when it is written
  have hown : r.dataSize ≠ 0 → ∀ o,
      (stagedImage cfg fl s (nextHeader cfg fl s c₂.metaBlockHeader)).data p.fileMeta.lblock o =
        fl.byte cfg.eraseVal (stageBlock s (image cfg fl₀ a) p.fileMeta.lblock) o := by
    intro h0 o
    rw [stagedImage_data (hst.blocks _ hlb), if_pos rfl, WritePlan.block]
    dsimp only
    rw [if_neg h0, stageBlock]
    split_ifs <;> rfl
  have hend : cfg.blockSize - p.blockMeta.freeSize ≤ cfg.blockSize := Nat.sub_le _ _
  have hpend := hpl.end_le
  refine ⟨⟨?_, ?_, fun l hl => ?_⟩, hst.files, fun h0 o h₁ h₂ => ?_, fun h0 k hk => ?_,
    fun h0 o h₁ h₂ => ?_, fun h0 o h₁ h₂ => ?_, fun l hl hcase o h₁ h₂ => ?_,
    fun h0 o h₁ h₂ => ?_⟩
  · show c₂.metaBlockHeader.fsVersion = _
    rw [hc, ← h.header]
    split_ifs
    · rfl
    · exact Ctx.withScratch_version ..
  · show c₂.metaBlockHeader.scratchDblock = _
    rw [hc, ← h.header]
    by_cases h0 : r.dataSize = 0
    · simp only [h0, if_pos, ne_eq, not_true_eq_false, decide_false, or_true]
    · rw [if_neg h0, Ctx.withScratch_dblock, hpl.phyId]
      simp only [h0, ne_eq, not_false_eq_true, decide_true, Bool.true_eq_false, or_false]
  · refine (hst.blocks l hl).trans ?_
    rw [WritePlan.block, hpl.phyId, hpl.dataStart]
    by_cases h0 : r.dataSize = 0 <;> simp [h0]
  · obtain ⟨_, _, hw, hb⟩ := hst.written h0
    have hfit := WritePlan.fits_le hv hp.fits h0
    exact (hown h0 o).trans ((hb o h₁ (by omega)).trans (hw.before o h₁ h₂))
  · obtain ⟨_, _, hw, hb⟩ := hst.written h0
    have hfit := WritePlan.fits_le hv hp.fits h0
    have hlo := hpl.le_dataIdx
    exact (hown h0 _).trans ((hb _ (by omega) (by omega)).trans (hw.new k hk))
  · obtain ⟨_, _, hw, hb⟩ := hst.written h0
    have hlo := hpl.le_dataIdx
    exact (hown h0 o).trans ((hb o (by omega) (by omega)).trans (hw.gap o h₁ h₂))
  · obtain ⟨_, _, hw, hb⟩ := hst.written h0
    have hlo := hpl.le_dataIdx
    exact (hown h0 o).trans ((hb o (by omega) (by omega)).trans (hw.behind o h₁ h₂))
  · rw [stagedImage_data (hst.blocks l hl)]
    by_cases h0 : l = 0
    · subst h0
      rw [h.wf.lb0.2] at h₁
      rw [if_pos rfl]
      exact (hst.lb0 (hcase.imp Ne.symm id)).1 o h₁ h₂
    rw [if_neg h0]
    by_cases hl' : l = p.fileMeta.lblock
    · have hz := hcase.resolve_left fun hne => hne hl'
      rw [if_pos hl', WritePlan.block]
      dsimp only
      rw [if_pos hz, hpl.phyId, ← hl']
      exact hr.byte_eq hl o
    · rw [if_neg hl']
      exact hr.byte_eq hl o
  · rw [stagedImage_data (hst.blocks _ hlb), if_pos rfl, WritePlan.block]
    dsimp only
    split_ifs with hl0
    · rw [hl0] at h₁
      exact (hst.lb0 (.inr h0)).2 o h₁ h₂
    · rw [hpl.phyId]
      exact hr.byte_eq hlb o

/-! ## The whole write -/

/-- The filesystems that a write may commit. -/
def WriteOf (cfg : Config) (s : Nat) (st : Image) (r : WriteReq) (st' : Image) : Prop :=
  ∃ p, st.writePlan cfg r = .ok p ∧ WriteStep cfg s st r p st'

/-- The only cells that a write without a plan may change. -/
def failRegion (cfg : Config) (s : Nat) (st : Image) (r : WriteReq) : Region := fun b o =>
  r.flags &&& internalFlagsMask = 0 ∧ ∃ t, st.writeTarget cfg r = .ok t ∧ markRegion cfg s t b o

/-- The operations of a write: an update, and a second one that deletes a replaced file. -/
inductive WriteOp (cfg : Config) (fl₀ : Flash) (a s : Nat) (strict : Prop) (r : WriteReq) :
    Prog.Guard
  | update {fl : Flash} {o : Op}
    (op : UpdateOp cfg fl₀ a s strict (WriteOf cfg s (image cfg fl₀ a) r) fl o) :
    WriteOp cfg fl₀ a s strict r fl o
  | delete {c₁ : Ctx} {fl₁ fl : Flash} {p : WritePlan} {o : Op}
    (updated : Updated cfg fl₀ a s (WriteOf cfg s (image cfg fl₀ a) r) c₁ fl₁)
    (plan : (image cfg fl₀ a).writePlan cfg r = .ok p)
    (replaces : p.Replaces cfg (image cfg fl₀ a) r)
    (op : UpdateOp cfg fl₁ s a True (DeleteStep cfg a (image cfg fl₁ s) p.oldIdx) fl o) :
    WriteOp cfg fl₀ a s strict r fl o

/-- What a write leaves. -/
def WriteResult (cfg : Config) (fl₀ : Flash) (a s : Nat) (r : WriteReq) (c : Ctx)
    (res : Except Status Unit) (c' : Ctx) (fl' : Flash) : Prop :=
  match (image cfg fl₀ a).writePlan cfg r with
  | .error e => res = .error e ∧ c' = c ∧
      OnlyIn (failRegion cfg s (image cfg fl₀ a) r) fl₀ fl'
  | .ok p => res = .ok () ∧
      ((¬ p.Replaces cfg (image cfg fl₀ a) r ∧
        Updated cfg fl₀ a s (WriteOf cfg s (image cfg fl₀ a) r) c' fl') ∨
      (p.Replaces cfg (image cfg fl₀ a) r ∧ ∃ c₁ fl₁,
        Updated cfg fl₀ a s (WriteOf cfg s (image cfg fl₀ a) r) c₁ fl₁ ∧
        Updated cfg fl₁ s a (DeleteStep cfg a (image cfg fl₁ s) p.oldIdx) c' fl'))

theorem Starts.planOf {q : Nat × FileMeta × BlockMeta} (h : Starts cfg fl₀ a s strict c)
    (hf : r.fid ≠ 0) (ht : (image cfg fl₀ a).writeTarget cfg r = .ok t)
    (hq : (image cfg fl₀ a).writeReserve cfg r t = .ok q) :
    WritePlan.Of cfg ⟨t.oldIdx, q.1, q.2.1, q.2.2⟩ (image cfg fl₀ a) t := by
  have hmax := cfg.maxNumFiles_lt
  have htakes := fun hn => h.wf.writeReserve_takes (t := t) h.accepted h.a_le hn hq
  rcases h.wf.writeTarget_cases (r := r) h.accepted with ⟨i, hi, hid, he⟩ | ⟨_, he⟩
  · have hn : i ≠ metadataInvalidIndex := by unfold metadataInvalidIndex; omega
    have hsame : ∀ m, t = ⟨i, i, m⟩ →
        WritePlan.Of cfg ⟨t.oldIdx, q.1, q.2.1, q.2.2⟩ (image cfg fl₀ a) t := by
      rintro m rfl
      unfold Image.writeReserve at hq
      rw [if_neg hn] at hq
      injection hq with hq
      subst hq
      exact ⟨rfl, .inr hi, iff_of_false (fun hc => hn hc.2) fun hc => hc.2 rfl,
        fun hc => absurd hc.2 hn⟩
    rw [he] at ht
    split_ifs at ht with htr hsz <;> injection ht with ht
    · exact hsame _ ht.symm
    · subst ht
      have hk := (htakes rfl).1
      refine ⟨rfl, .inr hi, iff_of_true ⟨hn, rfl⟩ ⟨hn, fun heq => ?_⟩, fun _ => rfl⟩
      have hfree := hk.free
      rw [← show i = q.1 from heq, hid] at hfree
      exact hf hfree
    · exact hsame _ ht.symm
  · rw [he] at ht
    split_ifs at ht
    injection ht with ht
    subst ht
    exact ⟨rfl, .inl rfl, iff_of_false (fun hc => hc.1 rfl) fun hc => hc.1 rfl,
      fun hc => absurd rfl hc.1⟩

theorem writePlan_ok {st : Image} {q : Nat × FileMeta × BlockMeta}
    (hflags : r.flags &&& internalFlagsMask = 0) (ht : st.writeTarget cfg r = .ok t)
    (hq : st.writeReserve cfg r t = .ok q) : st.writePlan cfg r =
      if r.Fits cfg q.2.1 then .ok ⟨t.oldIdx, q.1, q.2.1, q.2.2⟩ else .error .genericError := by
  unfold Image.writePlan
  rw [if_neg (not_not.mpr hflags), ht]
  show (st.writeReserve cfg r t >>= _) = _
  rw [hq]
  rfl

theorem Starts.target_lblock_lt (h : Starts cfg fl₀ a s strict c) (hf : r.fid ≠ 0)
    (ht : (image cfg fl₀ a).writeTarget cfg r = .ok t) (hn : t.newIdx ≠ metadataInvalidIndex) :
    t.fileMeta.lblock < numActiveDblocks cfg := by
  rcases h.wf.writeTarget_cases (r := r) h.accepted with ⟨i, hi, hid, he⟩ | ⟨_, he⟩
  · have hl := (h.wf.sizes i hi (hid.symm ▸ hf)).1
    rw [he] at ht
    split_ifs at ht <;> injection ht with ht <;> subst ht <;> exact hl
  · rw [he] at ht
    split_ifs at ht
    injection ht with ht
    subst ht
    exact absurd rfl hn

theorem WritePlan.Sound.replaces_iff {st : Image} (h : p.Sound cfg st r) (hf : r.fid ≠ 0) :
    p.Replaces cfg st r ↔ p.oldIdx ≠ metadataInvalidIndex ∧ p.oldIdx ≠ p.newIdx := by
  constructor
  · intro hk
    have hlt := hk.oldIdx_lt
    have hmax := cfg.maxNumFiles_lt
    refine ⟨by unfold metadataInvalidIndex; omega, fun he => hf ?_⟩
    rw [← hk.id, he]
    exact hk.free
  · rintro ⟨h₁, h₂⟩
    rcases h.kind with hk | hk | hk
    · exact absurd hk.oldIdx h₂
    · exact absurd hk.oldIdx h₁
    · exact hk

/-- What the first update of a replacement leaves: the old file is still to be deleted. -/
theorem Updated.starts_delete {c₁ : Ctx} {fl₁ : Flash}
    (hu : Updated cfg fl₀ a s (WriteOf cfg s (image cfg fl₀ a) r) c₁ fl₁)
    (h : Starts cfg fl₀ a s strict c) (hs : s = otherMetaBlock a)
    (hcl : (image cfg fl₀ a).Closed cfg) (hv : r.Valid cfg)
    (hp : (image cfg fl₀ a).writePlan cfg r = .ok p) (hrep : p.Replaces cfg (image cfg fl₀ a) r) :
    Starts cfg fl₁ s a True c₁ ∧ (image cfg fl₁ s).Pending cfg p.oldIdx := by
  obtain ⟨hm, hclean, hact, st', ⟨p', hp', hst'⟩, hsame⟩ := hu.mounted h.accepted h.a_le hs
    fun st' ⟨p', hp', hst'⟩ =>
      hst'.wf (h.wf.writePlan_sound h.accepted h.a_le hp') h.wf hv h.accepted
  obtain rfl : p = p' := by
    rw [hp] at hp'
    injection hp'
  have hscr : c₁.scratchMetablock = a := by
    rw [hm.scratch, hact, hs, otherMetaBlock_other h.a_le]
  have hpend := hsame.pending
    (hst'.pending (h.wf.writePlan_sound h.accepted h.a_le hp) h.wf hv hcl hrep)
  have hst : Starts cfg fl₁ c₁.activeMetablock c₁.scratchMetablock True c₁ :=
    hm.starts fun _ => hclean.mono fun b o hw => .inl hw.1
  unfold mountedImage at hpend
  rw [hact] at hst hpend
  rw [hscr] at hst
  exact ⟨hst, hpend⟩

/-! ## The stages of a write -/

/-- A write, up to the metadata: the entries it is about, and those it leaves. -/
def fileWriteStage (cfg : Config) (r : WriteReq) : FsM WritePlan := do
  failIf (r.flags &&& internalFlagsMask ≠ 0) .invalidArgument
  let t ← fileWriteLookup cfg r.fid r.flags (r.max cfg)
  let (newIdx, fileMeta, blockMeta) ← fileWriteReserve cfg r.fid r.flags (r.max cfg) t
  let (fileMeta, blockMeta) ← fileWriteData cfg fileMeta blockMeta r.dataSize r.offset r.data
  pure ⟨t.oldIdx, newIdx, fileMeta, blockMeta⟩

/-- The metadata of a write. -/
def fileWriteComplete (cfg : Config) (r : WriteReq) (x : WritePlan) : FsM Unit :=
  fileWriteMeta cfg x.oldIdx x.newIdx x.fileMeta x.blockMeta r.dataSize

/-- A replaced file goes in a second update. -/
def fileWriteReplace (cfg : Config) (x : WritePlan) : FsM Unit :=
  if x.oldIdx ≠ metadataInvalidIndex ∧ x.oldIdx ≠ x.newIdx then flashFsDeleteIdx cfg x.oldIdx
  else pure ()

theorem fileWrite_eq (cfg : Config) (r : WriteReq) :
    flashFsFileWrite cfg r.fid r.flags r.maxSize r.dataSize r.offset r.data =
      fileWriteStage cfg r >>= fun x => fileWriteComplete cfg r x >>= fun _ =>
        flashFsMblockMetaUpdateFinalize cfg >>= fun _ => fileWriteReplace cfg x := by
  unfold flashFsFileWrite fileWriteStage fileWriteComplete fileWriteReplace
  simp only [bind_assoc, pure_bind]
  rfl

/-- What the first stage of a write leaves: the plan, with the data written, or an error. -/
def WriteStageResult (cfg : Config) (fl₀ : Flash) (a s : Nat) (r : WriteReq) (c : Ctx)
    (res : Except Status WritePlan) (c' : Ctx) (fl' : Flash) : Prop :=
  match (image cfg fl₀ a).writePlan cfg r with
  | .error e => res = .error e ∧ c' = c ∧
      OnlyIn (failRegion cfg s (image cfg fl₀ a) r) fl₀ fl'
  | .ok p => res = .ok ⟨p.oldIdx, p.newIdx, p.entry r, p.block s (image cfg fl₀ a) r⟩ ∧
      ∃ t fl₁, p.Of cfg (image cfg fl₀ a) t ∧ LookedUp cfg fl₀ a s c t fl₁ ∧
        DataWritten cfg fl₀ a s r p c fl₁ c' fl'

theorem Starts.fileWriteStage_wp (h : Starts cfg fl₀ a s strict c) (hr : r.InRange) :
    (fileWriteStage cfg r).wp cfg.eraseVal (UpdateOp cfg fl₀ a s strict P) c fl₀
      (WriteStageResult cfg fl₀ a s r c) := by
  -- a write that fails
  have hfail : ∀ {e : Status} {fl : Flash}, (image cfg fl₀ a).writePlan cfg r = .error e →
      OnlyIn (failRegion cfg s (image cfg fl₀ a) r) fl₀ fl →
        WriteStageResult cfg fl₀ a s r c (.error e) c fl := by
    intro e fl he hf
    unfold WriteStageResult
    rw [he]
    exact ⟨rfl, rfl, hf⟩
  unfold fileWriteStage
  by_cases hflags : r.flags &&& internalFlagsMask ≠ 0
  · refine (query_failIf_of hflags).seq_error.wp (hfail ?_ (.refl _ _))
    unfold Image.writePlan
    exact if_pos hflags
  refine (query_failIf_of_not hflags).seq_wp ?_
  rw [not_not] at hflags
  refine wp_bind.mpr (h.fileWriteLookup_wp (fun e he => ?_) fun t ht fl₁ hl => ?_)
  · refine hfail ?_ (.refl _ _)
    unfold Image.writePlan
    rw [if_neg (not_not.mpr hflags), he]
    rfl
  have hmark : OnlyIn (failRegion cfg s (image cfg fl₀ a) r) fl₀ fl₁ :=
    hl.changed.mono fun _ _ hw => ⟨hflags, t, ht, hw⟩
  refine (hl.fileWriteReserve_query allowsReads_updateOp ?_).bind_wp (fun q hq => ?_) fun e he => ?_
  · exact h.target_lblock_lt hr.fid ht
  · have hplan := writePlan_ok hflags ht hq
    have hof := h.planOf hr.fid ht hq
    obtain ⟨newIdx, fileMeta, blockMeta⟩ := q
    dsimp only at hplan hof ⊢
    have hsound : r.Fits cfg fileMeta → WritePlan.Sound cfg ⟨t.oldIdx, newIdx, fileMeta, blockMeta⟩
        (image cfg fl₀ a) r := fun hfit =>
      h.wf.writePlan_sound h.accepted h.a_le (hplan.trans (if_pos hfit))
    have hsc : c.metaBlockHeader.scratchDblock = (image cfg fl₀ a).header.scratchDblock :=
      congrArg MetadataBlockHeader.scratchDblock h.header
    refine wp_bind.mpr (hl.toReady.fileWriteData_wp
      (p := ⟨t.oldIdx, newIdx, fileMeta, blockMeta⟩) hsc hr (fun hf => (hsound hf).placed h.wf hr)
      (fun l hl' => hl.changed.clean (h.data_clean l hl') fun b o hw hm => ?_)
      (fun hf => hfail (hplan.trans (if_neg hf)) hmark) fun hfit c₂ fl₂ hd => (wp_pure _).mpr ?_)
    · have hrep := hof.replaces.mp hm.1
      have hlt := hof.range.resolve_left hrep.1
      exact h.dataRange_apart hl' (h.accepted.fileEntry_le (Nat.succ_le_of_lt hlt)) b o hm.2 hw
    · unfold WriteStageResult
      rw [hplan, if_pos hfit]
      exact ⟨rfl, t, fl₁, hof, hl, hd⟩
  · refine hfail ?_ hmark
    unfold Image.writePlan
    rw [if_neg (not_not.mpr hflags), ht]
    show ((image cfg fl₀ a).writeReserve cfg r t >>= _) = _
    rw [he]
    rfl

/-- The header of the context commits the update that is staged. -/
theorem DataWritten.header {c₁ : Ctx} {fl₁ fl₂ : Flash}
    (h : DataWritten cfg fl₀ a s r p c fl₁ c₁ fl₂) (hpl : p.Placed cfg (image cfg fl₀ a) r)
    (hc : c.metaBlockHeader = (image cfg fl₀ a).header) :
    c₁.metaBlockHeader.activeSwapCount = (image cfg fl₀ a).header.activeSwapCount ∧
      c₁.metaBlockHeader.scratchDblock < 2 ^ 32 := by
  have hlt : (image cfg fl₀ a).header.scratchDblock < 2 ^ 32 := Bytes.field_lt _ 0 4
  have hphy := (image_blocks_inRange cfg fl₀ a p.fileMeta.lblock).1
  rw [← hpl.phyId] at hphy
  rw [h.ctx]
  split_ifs
  · exact ⟨congrArg _ hc, hc ▸ hlt⟩
  · refine ⟨by rw [Ctx.withScratch_swapCount, hc], ?_⟩
    rw [Ctx.withScratch_dblock]
    split_ifs
    · exact hc ▸ hlt
    · exact hphy

/-- A write makes its plan, or fails and leaves the mounted filesystem alone. -/
theorem Starts.fileWrite_wp (h : Starts cfg fl₀ a s strict c) (hs : s = otherMetaBlock a)
    (hcl : (image cfg fl₀ a).Closed cfg) (hv : r.Valid cfg) :
    (flashFsFileWrite cfg r.fid r.flags r.maxSize r.dataSize r.offset r.data).wp cfg.eraseVal
      (WriteOp cfg fl₀ a s strict r) c fl₀ (WriteResult cfg fl₀ a s r c) := by
  have hG : ∀ fl o, UpdateOp cfg fl₀ a s strict (WriteOf cfg s (image cfg fl₀ a) r) fl o →
      WriteOp cfg fl₀ a s strict r fl o := fun _ _ ho => .update ho
  rw [fileWrite_eq]
  refine wp_bind.mpr (wp_mono (h.fileWriteStage_wp hv.inRange) hG fun res c₂ fl₂ hres => ?_)
  unfold WriteStageResult at hres
  unfold WriteResult
  cases hplan : (image cfg fl₀ a).writePlan cfg r with
  | error e =>
    rw [hplan] at hres
    obtain ⟨rfl, rfl, hf⟩ := hres
    exact ⟨rfl, rfl, hf⟩
  | ok p =>
    rw [hplan] at hres
    obtain ⟨rfl, t, fl₁, hof, hl, hd⟩ := hres
    have hp := h.wf.writePlan_sound h.accepted h.a_le hplan
    obtain ⟨hswap, hlt⟩ := hd.header (hp.placed h.wf hv.inRange) h.header
    refine ((h.fileWriteMeta_ok hl hd hp hv.inRange hof).guard hG).bind_wp ?_
    rintro _ c₂ fl₃ ⟨rfl, hr₃, hst⟩
    refine ((hr₃.finalize_ok hswap hlt ⟨p, hplan, h.writeStep hp hv hd.ctx hr₃ hst⟩).guard
      hG).bind_wp ?_
    intro _ c₁ fl₄ hupd
    have hiff := hp.replaces_iff hv.fid
    unfold fileWriteReplace
    dsimp only
    split_ifs with hrep
    · have hk := hiff.mpr hrep
      obtain ⟨hst₁, hpend⟩ := hupd.starts_delete h hs hcl hv hplan hk
      refine wp_mono (hst₁.deleteIdx_ok hpend.lt hpend.valid)
        (fun _ _ ho => .delete hupd hplan hk ho) ?_
      rintro _ c' fl' ⟨_, rfl, hupd'⟩
      exact ⟨rfl, .inr ⟨hk, c₁, fl₄, hupd, hupd'⟩⟩
    · exact (wp_pure _).mpr ⟨rfl, .inl ⟨fun hk => hrep (hiff.mp hk), hupd⟩⟩

end Etss
