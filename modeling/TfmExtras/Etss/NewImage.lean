import TfmExtras.Etss.Coherent
import TfmExtras.Etss.FirstError
import TfmExtras.Etss.Run
import TfmExtras.Lib.Programmed

/-! The image that an update leaves in the scratch metadata block: each cell of the two tables is
programmed once, and the tables are the active ones but for the entries the update is about. -/

namespace Etss
open NorFlash NorFlash.Flash FlashM

variable {cfg : Config} {c : Ctx} {o : Nat}

/-! ## The cells that the functions program -/

theorem blockToBlockMoveLoop_programs {dst : Nat} (src n : Nat) :
    ∀ {dstOffset srcOffset size : Nat}, size ≤ n → dstOffset + size < 2 ^ 32 →
    dstOffset ≤ o → o < dstOffset + size →
    (blockToBlockMoveLoop dst src n dstOffset srcOffset size).Programs cfg.eraseVal dst o c
      fun _ => True := by
  induction n with
  | zero =>
    intro dstOffset srcOffset size hn _ h₁ h₂
    omega
  | succ n ih =>
    intro dstOffset srcOffset size hn hlt h₁ h₂
    refine Programs.ite (fun h0 => by omega) fun h0 => programs_read_bind fun bs hbs => ?_
    have hpos : 0 < min size maxBlockDataCopy := lt_min (Nat.pos_of_ne_zero h0) (by decide)
    have hle : min size maxBlockDataCopy ≤ size := min_le_left _ _
    by_cases ho : o < dstOffset + min size maxBlockDataCopy
    · exact (programs_write h₁ (by rwa [hbs])).bind_left
    · refine Programs.bind_right (steady_issue _ _) fun _ => ?_
      rw [add32_eq (by omega)]
      exact ih (by omega) (by omega) (by omega) (by omega)

theorem blockToBlockMove_programs {dst dstOffset src srcOffset size : Nat}
    (hlt : dstOffset + size < 2 ^ 32) (h₁ : dstOffset ≤ o) (h₂ : o < dstOffset + size) :
    (flashFsBlockToBlockMove dst dstOffset src srcOffset size).Programs cfg.eraseVal dst o c
      fun _ => True :=
  blockToBlockMoveLoop_programs src size le_rfl hlt h₁ h₂

theorem writeBlockMeta_programs (hacc : cfg.Accepted) {l : Nat} (hl : l < numActiveDblocks cfg)
    (blockMeta : BlockMeta) (h₁ : 8 + 12 * l ≤ o) (h₂ : o < 8 + 12 * (l + 1)) :
    (mblockUpdateScratchBlockMeta l blockMeta).Programs cfg.eraseVal c.scratchMetablock o c
      fun _ => True := by
  unfold mblockUpdateScratchBlockMeta
  rw [hacc.blockOffset_eq hl.le]
  refine programs_get_bind (programs_write h₁ ?_).bind_left
  rw [BlockMeta.encode_length]
  omega

theorem writeFileMeta_programs (hacc : cfg.Accepted) {i : Nat} (hi : i < cfg.maxNumFiles)
    (fileMeta : FileMeta) (h₁ : cfg.fileEntry i ≤ o) (h₂ : o < cfg.fileEntry (i + 1)) :
    (flashFsMblockUpdateScratchFileMeta cfg i fileMeta).Programs cfg.eraseVal c.scratchMetablock o c
      fun _ => True := by
  unfold flashFsMblockUpdateScratchFileMeta
  rw [hacc.fileOffset_eq hi.le]
  refine programs_get_bind (programs_write h₁ ?_).bind_left
  rw [FileMeta.encode_length]
  unfold Config.fileEntry at *
  omega

theorem cpFileMeta_programs (hacc : cfg.Accepted) {i j : Nat} (hj : j ≤ cfg.maxNumFiles)
    (h₁ : cfg.fileEntry i ≤ o) (h₂ : o < cfg.fileEntry j) :
    (flashFsMblockCpFileMeta cfg i j).Programs cfg.eraseVal c.scratchMetablock o c
      fun _ => True := by
  have hij : i ≤ j := by
    unfold Config.fileEntry at h₁ h₂
    omega
  have hlt : cfg.fileEntry j < 2 ^ 32 := (hacc.fileEntry_le hj).trans_lt hacc.metaEnd_lt
  have hle := hacc.fileEntry_le hij
  unfold flashFsMblockCpFileMeta
  dsimp only
  rw [hacc.fileOffset_eq hj, hacc.fileOffset_eq (hij.trans hj), sub32_eq hlt hle]
  exact programs_get_bind (blockToBlockMove_programs (by omega) h₁ (by omega))

/-- The rest of the block table: the entry of logical block 0, those before the changed one and
those behind it. -/
theorem copyRemainingBlockMeta_programs (hacc : cfg.Accepted) {l : Nat}
    (hl : l < numActiveDblocks cfg) (h₁ : 8 ≤ o) (h₂ : o < cfg.filesStart)
    (hne : o < 8 + 12 * l ∨ 8 + 12 * (l + 1) ≤ o) :
    (mblockCopyRemainingBlockMeta cfg l).Programs cfg.eraseVal c.scratchMetablock o c
      fun _ => True := by
  have hlt : cfg.filesStart < 2 ^ 32 := by
    have := hacc.metaEnd_lt
    unfold Config.metaEnd Config.fileEntry at this
    omega
  have hstart : cfg.fileEntry 0 = cfg.filesStart := rfl
  have hentry : 8 + 12 * (l + 1) ≤ cfg.filesStart := by
    unfold Config.filesStart
    omega
  have htail : 8 + 12 * (l + 1) ≤ o → (flashFsBlockToBlockMove c.scratchMetablock
      (mblockBlockMetaOffset (l + 1)) c.activeMetablock (mblockBlockMetaOffset (l + 1))
      (sub32 (mblockFileMetaOffset cfg 0) (mblockBlockMetaOffset (l + 1)))).Programs cfg.eraseVal
        c.scratchMetablock o c fun _ => True := by
    intro ho
    rw [hacc.blockOffset_eq (Nat.succ_le_of_lt hl), hacc.fileOffset_eq (Nat.zero_le _), hstart,
      sub32_eq hlt (by omega)]
    exact blockToBlockMove_programs (by omega) ho (by omega)
  unfold mblockCopyRemainingBlockMeta
  refine programs_get_bind (Programs.ite (fun h0 => ?_) fun h0 => ?_)
  · have hl0 : l ≠ 0 := h0
    refine Programs.bind_right (readBlockMetadata_steady _).failAs fun blockMeta => ?_
    by_cases hfirst : o < 20
    · exact (writeBlockMeta_programs hacc hacc.numActive_pos _ (by omega)
        (by omega)).failAs.bind_left
    refine Programs.bind_right (writeBlockMeta_steady _ _).failAs fun _ => ?_
    refine Programs.ite (fun h1 => ?_) fun h1 => ?_
    · rcases hne with ho | ho
      · refine Programs.bind_left ?_
        have hone : mblockBlockMetaOffset (logicalDblock0 + 1) = 20 :=
          hacc.blockOffset_eq hacc.numActive_pos
        rw [hone, hacc.blockOffset_eq hl.le, sub32_eq (by omega) (by omega)]
        exact blockToBlockMove_programs (by omega) (by omega) (by omega)
      · exact Programs.bind_right (blockToBlockMove_steady _ _ _ _ _) fun _ => htail ho
    · exact Programs.bind_right (steady_pure ()) fun _ => htail (by omega)
  · have hl0 : l = 0 := not_not.mp h0
    exact Programs.bind_right (steady_pure ()) fun _ => htail (by omega)

theorem updateScratchBlockMeta_programs (hacc : cfg.Accepted) {l : Nat}
    (hl : l < numActiveDblocks cfg) (blockMeta : BlockMeta) (h₁ : 8 ≤ o)
    (h₂ : o < cfg.filesStart) :
    (flashFsMblockUpdateScratchBlockMeta cfg l blockMeta).Programs cfg.eraseVal c.scratchMetablock o
      c fun _ => True := by
  refine programs_get_bind ?_
  by_cases ho : 8 + 12 * l ≤ o ∧ o < 8 + 12 * (l + 1)
  · exact (writeBlockMeta_programs hacc hl _ ho.1 ho.2).failAs.bind_left
  · exact Programs.bind_right (writeBlockMeta_steady _ _).failAs fun _ =>
      copyRemainingBlockMeta_programs hacc hl h₁ h₂ (by omega)

/-! ## A deletion -/

theorem deleteIdxLoop_programs (hacc : cfg.Accepted) {d lblock dataIdx maxSize i : Nat}
    (hd : i ≠ d) (h₁ : cfg.fileEntry i ≤ o) (h₂ : o < cfg.fileEntry (i + 1)) (n : Nat) :
    ∀ {idx : Nat} {scan : DeleteScan}, idx ≤ i → i < idx + n → idx + n ≤ cfg.maxNumFiles →
    (deleteIdxLoop cfg d lblock dataIdx maxSize n idx scan).Programs cfg.eraseVal
      c.scratchMetablock o c fun _ => True := by
  induction n with
  | zero =>
    intro idx scan hle hlt _
    omega
  | succ n ih =>
    intro idx scan hle hlt hn
    refine Programs.ite (fun hidx => ih (by omega) (by omega) (by omega)) fun hidx => ?_
    refine Programs.bind_right (readFileMeta_steady _) fun fileMeta => ?_
    by_cases hi : i = idx
    · subst hi
      exact (writeFileMeta_programs hacc (by omega) _ h₁ h₂).bind_left
    · exact Programs.bind_right (updateScratchFileMeta_steady _ _) fun _ =>
        ih (by omega) (by omega) (by omega)

theorem setDataScratch_bind_programs {α : Type} {ev : UInt8} {b phyId lblock : Nat}
    {k : Unit → FsM α} {Q : α → Prop}
    (h : (k ()).Programs ev b o (c.withScratch lblock phyId) Q) :
    (flashFsMblockSetDataScratch phyId lblock >>= k).Programs ev b o c Q := by
  unfold Programs run programCount
  rw [setDataScratch_bind]
  exact h

theorem compactBlockStage_programs (hacc : cfg.Accepted) {lblock : Nat}
    (hl : lblock < numActiveDblocks cfg) (freeSize srcOffset dstOffset size : Nat) (h₁ : 8 ≤ o)
    (h₂ : o < cfg.filesStart) :
    (compactBlockStage cfg lblock freeSize srcOffset dstOffset size).Programs cfg.eraseVal
      c.scratchMetablock o c fun _ => True := by
  have hend : ∀ phyId scratchId (blockMeta : BlockMeta),
      (compactBlockFinish cfg lblock phyId scratchId blockMeta).Programs cfg.eraseVal
        c.scratchMetablock o c fun _ => True := by
    intro phyId scratchId blockMeta
    unfold compactBlockFinish
    refine setDataScratch_bind_programs (Programs.attempt_bind ?_ fun e c' =>
      setDataScratch_bind_programs (programs_fail e))
    have hs := Ctx.withScratch_scratch c lblock phyId
    rw [← hs]
    exact updateScratchBlockMeta_programs hacc hl blockMeta h₁ h₂
  unfold compactBlockStage
  refine Programs.bind_right (readBlockMetadata_steady _) fun blockMeta => ?_
  refine Programs.bind_right (curDataScratchId_steady _) fun scratchId => ?_
  dsimp only
  refine Programs.ite (fun _ => ?_) fun _ => ?_
  · refine Programs.bind_right (blockToBlockMove_steady _ _ _ _ _).failAs fun _ => ?_
    refine Programs.ite (fun _ => ?_) fun _ => ?_
    · exact Programs.bind_right (blockToBlockMove_steady _ _ _ _ _).failAs fun _ => hend _ _ _
    · exact hend _ _ _
  · refine Programs.ite (fun _ => ?_) fun _ => ?_
    · exact Programs.bind_right (blockToBlockMove_steady _ _ _ _ _).failAs fun _ => hend _ _ _
    · exact hend _ _ _

/-! ## A write -/

/-- The old entry of a file that gets a new one. -/
def OldEntry (cfg : Config) (o oldIdx newIdx : Nat) : Prop :=
  oldIdx ≠ newIdx ∧ oldIdx < cfg.maxNumFiles ∧ cfg.fileEntry oldIdx ≤ o ∧
    o < cfg.fileEntry (oldIdx + 1)

theorem not_oldEntry_self (i : Nat) : ¬ OldEntry cfg o i i :=
  fun h => h.1 rfl

/-- The lookup marks the entry of a file that gets a new one. -/
theorem fileWriteLookup_programs (hacc : cfg.Accepted) (fid : Fid) (flags maxSize : Nat) :
    (fileWriteLookup cfg fid flags maxSize).Programs cfg.eraseVal c.scratchMetablock o c fun t =>
      OldEntry cfg o t.oldIdx t.newIdx := by
  have hfind : (flashFsMblockGetFileIdx cfg fid).Steady c :=
    GivesUp.mono (findFileMeta_givesUp _ cfg.maxNumFiles 0) (fun _ _ => trivial) (fun _ => id)
      fun _ => id
  refine Programs.attempt_right hfind fun r => ?_
  cases r with
  | ok oldIdx =>
    refine Programs.bind_right (readFileMeta_steady _).failAs fun fileMeta => ?_
    refine Programs.ite (fun _ => Programs.ite (fun _ => ?_) fun _ => ?_) fun _ => ?_
    · exact programs_pure (not_oldEntry_self _)
    · by_cases ho : OldEntry cfg o oldIdx metadataInvalidIndex
      · obtain ⟨_, hlt, h₁, h₂⟩ := ho
        exact (writeFileMeta_programs hacc hlt _ h₁ h₂).failAs.bind_left
      · exact Programs.bind_any fun _ _ => programs_pure ho
    · exact programs_pure (not_oldEntry_self _)
  | error e =>
    cases e <;> first
      | exact programs_fail _
      | exact Programs.bind_any fun _ _ => programs_pure (not_oldEntry_self _)

theorem fileWriteStage_programs (hacc : cfg.Accepted) (r : WriteReq) :
    (fileWriteStage cfg r).Programs cfg.eraseVal c.scratchMetablock o c fun x =>
      OldEntry cfg o x.oldIdx x.newIdx := by
  unfold fileWriteStage
  refine Programs.bind_right (steady_failIf _ _) fun _ => ?_
  refine Programs.bind (fileWriteLookup_programs hacc r.fid r.flags (r.max cfg)) fun t c' ht => ?_
  by_cases hidx : t.oldIdx = t.newIdx ∧ t.newIdx ≠ metadataInvalidIndex
  · -- the entry is reused
    unfold fileWriteReserve
    rw [if_neg hidx.2, hidx.1]
    simp only [bind_assoc, pure_bind]
    exact Programs.bind_any fun blockMeta _ => Programs.bind_any fun x _ =>
      programs_pure (not_oldEntry_self _)
  · refine Programs.bind_any fun q _ => Programs.bind_any fun x _ => programs_pure fun h => ?_
    refine ht ⟨fun he => hidx ⟨he, ?_⟩, h.2⟩
    have hlt : t.oldIdx < cfg.maxNumFiles := h.2.1
    have hmax := cfg.maxNumFiles_lt
    unfold metadataInvalidIndex
    omega

theorem fileEntry_of_lt {n : Nat} (h₁ : cfg.filesStart ≤ o) (h₂ : o < cfg.fileEntry n) :
    ∃ i < n, cfg.fileEntry i ≤ o ∧ o < cfg.fileEntry (i + 1) := by
  refine ⟨(o - cfg.filesStart) / 32, ?_, ?_, ?_⟩ <;> unfold Config.fileEntry at * <;> omega

/-- The metadata of a write is the two tables but for an old entry, which the lookup has marked. -/
theorem fileWriteMeta_programs (hacc : cfg.Accepted) {oldIdx newIdx : Nat} {fileMeta : FileMeta}
    (hl : fileMeta.lblock < numActiveDblocks cfg) (hnew : newIdx < cfg.maxNumFiles)
    (hold : oldIdx = metadataInvalidIndex ∨ oldIdx < cfg.maxNumFiles) (blockMeta : BlockMeta)
    (dataSize : Nat) (h₁ : 8 ≤ o) (h₂ : o < cfg.metaEnd)
    (hne : ¬ OldEntry cfg o oldIdx newIdx) :
    (fileWriteMeta cfg oldIdx newIdx fileMeta blockMeta dataSize).Programs cfg.eraseVal
      c.scratchMetablock o c fun _ => True := by
  unfold fileWriteMeta
  by_cases hblocks : o < cfg.filesStart
  · exact (updateScratchBlockMeta_programs hacc hl blockMeta h₁ hblocks).failAs.bind_left
  refine Programs.bind_right (updateScratchBlockMeta_steady _ _).failAs fun _ => ?_
  obtain ⟨i, hi, hlo, hhi⟩ := fileEntry_of_lt (Nat.le_of_not_lt hblocks) h₂
  by_cases hin : i = newIdx
  · subst hin
    exact (writeFileMeta_programs hacc hnew _ hlo hhi).failAs.bind_left
  have hio : i ≠ oldIdx := by
    rintro rfl
    exact hne ⟨hin, hi, hlo, hhi⟩
  -- a range of entries that has entry `i` in it
  have hcopy : ∀ {lo hi : Nat}, hi ≤ cfg.maxNumFiles → lo ≤ i → i < hi →
      (flashFsMblockCpFileMeta cfg lo hi).Programs cfg.eraseVal c.scratchMetablock o c
        fun _ => True := fun hhi' hlo' hlt =>
    cpFileMeta_programs hacc hhi' ((hacc.fileEntry_le hlo').trans hlo)
      (hhi.trans_le (hacc.fileEntry_le (Nat.succ_le_of_lt hlt)))
  refine Programs.bind_right (updateScratchFileMeta_steady _ _).failAs fun _ => ?_
  dsimp only
  by_cases hbefore : i < min newIdx oldIdx
  · exact (hcopy (by omega) (Nat.zero_le i) hbefore).failAs.bind_left
  refine Programs.bind_right (cpFileMeta_steady _ _).failAs fun _ => ?_
  refine Programs.ite (fun htwo => ?_) fun htwo => ?_
  · have holdlt := hold.resolve_left htwo.1
    by_cases hmid : i < max newIdx oldIdx
    · exact (hcopy (by omega) (by omega) hmid).failAs.bind_left
    refine Programs.bind_right (cpFileMeta_steady _ _).failAs fun _ => ?_
    refine programs_pure_bind (hcopy le_rfl ?_ hi).failAs.bind_left
    omega
  · have hidx : min newIdx oldIdx = newIdx := by
      unfold metadataInvalidIndex at htwo hold
      have := cfg.maxNumFiles_lt
      omega
    refine programs_pure_bind (hcopy le_rfl ?_ hi).failAs.bind_left
    omega

/-! ## The new image -/

/-- The functions that build a new image and commit it. -/
inductive TableUpdate
  | write (r : WriteReq)
  | deleteIdx (d : Nat)

namespace TableUpdate

def exec (cfg : Config) : TableUpdate → FsM Unit
  | .write r => flashFsFileWrite cfg r.fid r.flags r.maxSize r.dataSize r.offset r.data
  | .deleteIdx d => flashFsDeleteIdx cfg d

/-- What comes before `etss_flash_fs_mblock_meta_update_finalize`. The result is the old entry of a
replaced file, which is deleted after it. -/
def staged (cfg : Config) : TableUpdate → FsM (Option Nat)
  | .write r => do
    let x ← fileWriteStage cfg r
    fileWriteComplete cfg r x
    pure (if x.oldIdx ≠ metadataInvalidIndex ∧ x.oldIdx ≠ x.newIdx then some x.oldIdx else none)
  | .deleteIdx d => do
    let x ← deleteIdxStage cfg d
    deleteIdxComplete cfg x
    pure none

def deleteNext (cfg : Config) : Option Nat → FsM Unit
  | none => pure ()
  | some d => flashFsDeleteIdx cfg d

theorem exec_eq (cfg : Config) (u : TableUpdate) : u.exec cfg =
    u.staged cfg >>= fun next =>
      flashFsMblockMetaUpdateFinalize cfg >>= fun _ => deleteNext cfg next := by
  cases u with
  | write r =>
    refine (fileWrite_eq cfg r).trans ?_
    unfold staged
    simp only [bind_assoc, pure_bind]
    refine bind_congr fun x => bind_congr fun _ => bind_congr fun _ => ?_
    unfold fileWriteReplace
    split_ifs <;> rfl
  | deleteIdx d =>
    refine (deleteIdx_eq cfg d).trans ?_
    unfold staged
    simp only [bind_assoc, pure_bind]
    exact bind_congr fun x => bind_congr fun _ => (bind_pure _).symm

/-- A write is about a valid file id and 32-bit sizes, a deletion about an entry of the table. -/
def InRange (cfg : Config) : TableUpdate → Prop
  | .write r => r.InRange
  | .deleteIdx d => d < cfg.maxNumFiles

/-- The tables of the image that replaces `st`, in metadata block `s`. -/
def NewTables (cfg : Config) (s : Nat) (st new : Image) : TableUpdate → Prop
  | .write r => ∃ p, st.writePlan cfg r = .ok p ∧
    (∀ l, l < numActiveDblocks cfg →
      new.blocks l = stagedBlock s st.blocks p.fileMeta.lblock (p.block s st r) l) ∧
    ∀ i, i < cfg.maxNumFiles → new.files i =
      if i = p.newIdx then p.entry r else if i = p.oldIdx then (st.files i).mark else st.files i
  | .deleteIdx d =>
    (∀ l, l < numActiveDblocks cfg → new.blocks l =
      stagedBlock s st.blocks (st.files d).lblock ⟨stageBlock s st (st.files d).lblock,
        (st.blocks (st.files d).lblock).dataStart,
        (st.blocks (st.files d).lblock).freeSize + (st.files d).maxSize⟩ l) ∧
    ∀ i, i < cfg.maxNumFiles → new.files i =
      if i = d then FileMeta.zero else st.shifted d (st.files i)

end TableUpdate

variable {a s d : Nat} {fl fl₀ : Flash} {r : WriteReq}

/-- While an update is staged, a cell is only programmed when it is erased. -/
theorem staging_once {α : Type} {m : FsM α} {Q : Post Ctx Status α}
    (h : m.wp cfg.eraseVal (StagingOp cfg fl₀ a s True) c fl Q) (b o : Nat) :
    (m c).Once cfg.eraseVal b o fl := by
  intro x hx
  have hop := (wp_iff.mp h).1 x hx
  obtain ⟨fl', op⟩ := x
  cases hop with
  | read => exact ⟨nofun, fun h => absurd h id⟩
  | commit staged => exact absurd staged.step id
  | stage only op =>
    rename_i op'
    cases op' with
    | write b' off data =>
      refine ⟨nofun, fun hp => ?_⟩
      obtain ⟨rfl, h₁, h₂⟩ := hp
      exact op.erased trivial _ o ⟨rfl, h₁, h₂⟩
    | init => exact absurd op id
    | erase _ => exact absurd op id
    | read _ _ _ => exact ⟨nofun, fun h => absurd h id⟩
    | flush _ => exact ⟨nofun, fun h => absurd h id⟩

theorem Starts.write_staged_wp (h : Starts cfg fl₀ a s True c) (hr : r.InRange) :
    ((TableUpdate.write r).staged cfg).wp cfg.eraseVal (StagingOp cfg fl₀ a s True) c fl₀
      fun res _ fl' => (∃ next, res = .ok next) →
        (TableUpdate.write r).NewTables cfg s (image cfg fl₀ a) (image cfg fl' s) := by
  unfold TableUpdate.staged
  refine wp_bind.mpr (wp_post (h.fileWriteStage_wp hr) fun res c₁ fl₁ hres => ?_)
  unfold WriteStageResult at hres
  cases hplan : (image cfg fl₀ a).writePlan cfg r with
  | error e =>
    rw [hplan] at hres
    obtain ⟨rfl, _⟩ := hres
    rintro ⟨next, hn⟩
    cases hn
  | ok p =>
    rw [hplan] at hres
    obtain ⟨rfl, t, fl₂, hof, hl, hd⟩ := hres
    have hsound := h.wf.writePlan_sound h.accepted h.a_le hplan
    refine (h.fileWriteMeta_ok hl hd hsound hr hof).bind_wp ?_
    rintro _ _ fl₃ ⟨rfl, _, hst⟩
    exact (wp_pure _).mpr fun _ => ⟨p, hplan, hst.blocks, hst.files⟩

theorem Starts.delete_staged_ok (h : Starts cfg fl₀ a s True c) (hd : d < cfg.maxNumFiles)
    (hid : ((image cfg fl₀ a).files d).id ≠ 0) :
    ((TableUpdate.deleteIdx d).staged cfg).Ok cfg.eraseVal (StagingOp cfg fl₀ a s True) c fl₀
      fun _ _ fl' =>
        (TableUpdate.deleteIdx d).NewTables cfg s (image cfg fl₀ a) (image cfg fl' s) := by
  unfold TableUpdate.staged
  refine (h.deleteIdxStage_ok hd hid).bind fun x c₁ fl₁ hst => ?_
  refine (hst.complete_ok hd hid).bind ?_
  rintro _ c₁ fl₂ ⟨rfl, _, ht, hdata, _⟩
  refine ok_pure ⟨hdata.blocks, fun i hi => ?_⟩
  split_ifs with hi'
  · exact hi' ▸ ht.zero
  · exact ht.others i hi hi'

/-! ## The cells of the new image -/

theorem Starts.write_staged_count (h : Starts cfg fl₀ a s True c) (hr : r.InRange)
    {next : Option Nat}
    (hok : (((TableUpdate.write r).staged cfg).run cfg.eraseVal c fl₀).status = .ok next)
    (h₁ : 8 ≤ o) (h₂ : o < cfg.metaEnd) :
    0 < ((TableUpdate.write r).staged cfg).programCount cfg.eraseVal s o c fl₀ := by
  have hres := (wp_iff.mp (h.fileWriteStage_wp (P := fun _ => False) hr)).2
  unfold TableUpdate.staged at hok ⊢
  obtain ⟨x, hx, hok⟩ := status_bind_ok hok
  rw [programCount_bind_ok hx]
  unfold WriteStageResult at hres
  cases hplan : (image cfg fl₀ a).writePlan cfg r with
  | error e =>
    rw [hplan, hx] at hres
    cases hres.1
  | ok p =>
    rw [hplan, hx] at hres
    obtain ⟨hxp, t, fl₁, hof, _, hd⟩ := hres
    cases hxp
    have hsound := h.wf.writePlan_sound h.accepted h.a_le hplan
    have hscr := hd.toReady.scratch
    by_cases hold : OldEntry cfg o p.oldIdx p.newIdx
    · refine Nat.add_pos_left ?_ _
      have hstage := fileWriteStage_programs (c := c) (o := o) h.accepted r fl₀ _ hx hold
      rwa [h.scratch] at hstage
    · refine Nat.add_pos_right _ ?_
      obtain ⟨_, hy, _⟩ := status_bind_ok hok
      rw [programCount_bind_ok hy]
      refine Nat.add_pos_left ?_ _
      have hl : (p.entry r).lblock < numActiveDblocks cfg := by
        rw [WritePlan.entry_lblock]
        exact (hsound.placed h.wf hr).lblock_lt
      have hmeta := fileWriteMeta_programs h.accepted hl hsound.newIdx_lt hof.range
        (p.block s (image cfg fl₀ a) r) r.dataSize h₁ h₂ hold _ _ hy trivial
      rwa [hscr] at hmeta

theorem Starts.delete_staged_count (h : Starts cfg fl₀ a s True c) (hd : d < cfg.maxNumFiles)
    (hid : ((image cfg fl₀ a).files d).id ≠ 0) {next : Option Nat}
    (hok : (((TableUpdate.deleteIdx d).staged cfg).run cfg.eraseVal c fl₀).status = .ok next)
    (h₁ : 8 ≤ o) (h₂ : o < cfg.metaEnd) :
    0 < ((TableUpdate.deleteIdx d).staged cfg).programCount cfg.eraseVal s o c fl₀ := by
  have hl := (h.wf.sizes d hd hid).1
  have hread := (h.readFile (G := fun _ _ => True) (fun _ _ _ _ _ _ => trivial) hd).run_eq
  have hscr := h.scratch
  unfold TableUpdate.staged deleteIdxStage at hok ⊢
  simp only [bind_assoc] at hok ⊢
  subst hscr
  refine Programs.after_run (?_ : Programs _ _ _ _ _ fun _ => True) hread hok trivial
  refine Programs.bind_right (steady_ofExcept _).failAs fun _ => ?_
  by_cases hblocks : o < cfg.filesStart
  · refine Programs.bind_right (updateScratchFileMeta_steady _ _) fun _ => ?_
    refine Programs.bind_right (deleteIdxLoop_steady _ _ _ _ _ _ _) fun scan => ?_
    exact (compactBlockStage_programs h.accepted hl _ _ _ _ h₁ hblocks).bind_left
  obtain ⟨i, hi, hlo, hhi⟩ := fileEntry_of_lt (Nat.le_of_not_lt hblocks) h₂
  by_cases hid : i = d
  · subst hid
    exact (writeFileMeta_programs h.accepted hd _ hlo hhi).bind_left
  · refine Programs.bind_right (updateScratchFileMeta_steady _ _) fun _ => ?_
    exact (deleteIdxLoop_programs h.accepted hid hlo hhi _ (Nat.zero_le i) (by omega)
      (by omega)).bind_left

/-- A deletion of a free entry stages nothing. -/
theorem Starts.delete_staged_valid (h : Starts cfg fl₀ a s True c) (hd : d < cfg.maxNumFiles)
    {next : Option Nat}
    (hok : (((TableUpdate.deleteIdx d).staged cfg).run cfg.eraseVal c fl₀).status = .ok next) :
    ((image cfg fl₀ a).files d).id ≠ 0 := by
  intro hid
  have hread := (h.readFile (G := fun _ _ => True) (fun _ _ _ _ _ _ => trivial) hd).run_eq
  have hv : utilsValidateFid ((image cfg fl₀ a).files d).id = .error .doesNotExist :=
    if_neg (not_not_intro hid)
  unfold TableUpdate.staged deleteIdxStage at hok
  simp only [bind_assoc] at hok
  rw [run_bind_ok (congrArg Outcome.status hread)] at hok
  obtain ⟨_, hx, _⟩ := status_bind_ok hok
  rw [hv] at hx
  cases hx

/-- Where an update commits, each cell of the tables in the scratch metadata block has been
programmed once, and the tables are the active ones but for the entries the update is about. -/
theorem newImage (h : Mounted cfg c fl) (hclean : Clean (fun b _ => b = c.scratchMetablock) fl)
    {u : TableUpdate} (hu : u.InRange cfg) {next : Option Nat}
    (hok : ((u.staged cfg).run cfg.eraseVal c fl).status = .ok next) :
    (u.exec cfg = u.staged cfg >>= fun next =>
      flashFsMblockMetaUpdateFinalize cfg >>= fun _ => TableUpdate.deleteNext cfg next) ∧
    (∀ o, blockMetaHeaderSize ≤ o → o < cfg.metaEnd →
      (u.staged cfg).programCount cfg.eraseVal c.scratchMetablock o c fl = 1) ∧
    u.NewTables cfg c.scratchMetablock (mountedImage cfg c fl)
      (image cfg ((u.staged cfg).run cfg.eraseVal c fl).flash c.scratchMetablock) := by
  have hst : Starts cfg fl c.activeMetablock c.scratchMetablock True c :=
    h.starts fun _ => hclean.mono fun b o hw => hw.1
  have hwp : (u.staged cfg).wp cfg.eraseVal
      (StagingOp cfg fl c.activeMetablock c.scratchMetablock True) c fl fun res _ fl' =>
        (∃ next, res = .ok next) → u.NewTables cfg c.scratchMetablock (mountedImage cfg c fl)
          (image cfg fl' c.scratchMetablock) := by
    cases u with
    | write r => exact hst.write_staged_wp hu
    | deleteIdx d =>
      refine wp_post (hst.delete_staged_ok hu (hst.delete_staged_valid hu hok)) ?_
      rintro _ _ _ ⟨_, rfl, hnew⟩ _
      exact hnew
  refine ⟨u.exec_eq cfg, fun o h₁ h₂ => ?_, (wp_iff.mp hwp).2 ⟨next, hok⟩⟩
  have hle : (u.staged cfg).programCount cfg.eraseVal c.scratchMetablock o c fl ≤ 1 :=
    (staging_once hwp c.scratchMetablock o).programCount_le_one
  have hpos : 0 < (u.staged cfg).programCount cfg.eraseVal c.scratchMetablock o c fl := by
    cases u with
    | write r => exact hst.write_staged_count hu hok h₁ h₂
    | deleteIdx d =>
      exact hst.delete_staged_count hu (hst.delete_staged_valid hu hok) hok h₁ h₂
  omega

/-- Two files of four bytes, and the first of them is replaced by a larger one. -/
def beforeReplace : Ctx × Flash :=
  filled fiveBlocks [.write fourBytes, .write { fourBytes with fid := 2 }]

def replaceFirst : TableUpdate := .write ⟨1, flagCreate ||| flagTruncate, 8, 8, 0, UInt8.ofNat⟩

theorem newImage_replaceFirst :
    ((replaceFirst.staged fiveBlocks).run fiveBlocks.eraseVal beforeReplace.1
      beforeReplace.2).status = .ok (some 1) ∧
    ∀ o, blockMetaHeaderSize ≤ o → o < fiveBlocks.metaEnd →
      (replaceFirst.staged fiveBlocks).programCount fiveBlocks.eraseVal
        beforeReplace.1.scratchMetablock o beforeReplace.1 beforeReplace.2 = 1 := by
  have hstore : Store fiveBlocks beforeReplace.1 beforeReplace.2 :=
    (reaches_filled (by decide)).store fiveBlocks_accepted
  have hrow : beforeReplace.2.row beforeReplace.1.scratchMetablock = [] := by decide +kernel
  have hclean : Clean (fun b _ => b = beforeReplace.1.scratchMetablock) beforeReplace.2 := by
    intro b o hb
    rw [show b = _ from hb, cell, hrow]
    rfl
  have hok : ((replaceFirst.staged fiveBlocks).run fiveBlocks.eraseVal beforeReplace.1
      beforeReplace.2).status = .ok (some 1) := by decide +kernel
  exact ⟨hok, (newImage hstore.toMounted hclean (u := replaceFirst)
    ⟨by decide, by decide, by decide, by decide, by decide⟩ hok).2.1⟩

end Etss
